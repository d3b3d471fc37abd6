/-
# Bytewise.Pattern.Bracket -- the set a bracket expression stands for

A bracket expression is read in two steps: `members?` cuts the text after its
`[` into members, up to the first `]` that is not escaped, and `collect` turns
the members into a set.  `read?` is both, and has no result exactly when the
bracket is not closed.

* a leading `^` asks for the complement, taken last;
* a `]` right after `[` or `[^` is a member;
* a member is a byte, an escape, or `\s` for white space;
* a plain `-` between two members is a range when a single byte stands before it
  that is not itself the upper end of a range; before `\s` it is a byte like any
  other, and so it is as the last member;
* without regard to case the members are closed under case, before the
  complement is taken.

`length_read?` says that reading always consumes something.
-/
import Bytewise.ByteSet
import Bytewise.Pattern.Escape

namespace Bytewise.Pattern.Bracket

set_option autoImplicit false

inductive Member
  | byte (b : UInt8) (escaped : Bool)
  | blank
  deriving DecidableEq, Repr

/-! ## Cutting the text into members -/

/-- Reads the member that starts with `c`; only a backslash that ends the text is none. -/
def Member.read? (c : UInt8) (rest : Bytes) : Option (Member × Bytes) :=
  if c = Byte.backslash then
    match rest with
    | [] => none
    | e :: rest =>
      if e = Byte.ofChar 's' then some (.blank, rest)
      else some (.byte (Escape.decode e rest).1 true, (Escape.decode e rest).2)
  else some (.byte c false, rest)

theorem Member.length_read?_le {c : UInt8} {rest : Bytes} {r : Member × Bytes}
    (h : Member.read? c rest = some r) : r.2.length ≤ rest.length := by
  unfold Member.read? at h
  split at h
  · cases rest with
    | nil => simp at h
    | cons e rest =>
      have := Escape.length_decode_le e rest
      simp only at h
      split at h <;> obtain rfl := Option.some.inj h <;> simp only [List.length_cons] <;> omega
  · obtain rfl := Option.some.inj h
    exact Nat.le_refl _

/-- The members up to the closing `]`, and the text after it. -/
def members? : Bytes → Option (List Member × Bytes)
  | [] => none
  | c :: rest =>
    if c = Byte.rightBracket then some ([], rest)
    else
      match _h : Member.read? c rest with
      | none => none
      | some (m, after) => (members? after).map fun r => (m :: r.1, r.2)
  termination_by s => s.length
  decreasing_by
    have := Member.length_read?_le _h
    simp only [List.length_cons] at *
    omega

/-- The members, where a `]` that comes first is one of them. -/
def listed? : Bytes → Option (List Member × Bytes)
  | [] => none
  | c :: rest =>
    if c = Byte.rightBracket then (members? rest).map fun r => (.byte c false :: r.1, r.2)
    else members? (c :: rest)

/-! ## From members to a set -/

/-- What the next member may continue. -/
inductive Pending
  /-- Nothing: it starts afresh. -/
  | nothing
  /-- A single byte, from which a range may start. -/
  | low (b : UInt8)
  /-- A range whose upper end it may be. -/
  | range (low : UInt8)
  deriving DecidableEq, Repr

/-- Adds one member to a set. -/
def step : Pending × ByteSet → Member → Pending × ByteSet
  | (.range low, set), .byte high _ => (.nothing, set.insertRange low high)
  | (.range _, set), .blank => (.nothing, (set.insert Byte.hyphen).insertAll Byte.blanks)
  | (_, set), .blank => (.nothing, set.insertAll Byte.blanks)
  | (.nothing, set), .byte b _ => (.low b, set.insert b)
  | (.low low, set), .byte b escaped =>
    if b = Byte.hyphen ∧ escaped = false then (.range low, set) else (.low b, set.insert b)

/-- A `-` that nothing follows is a byte. -/
def finish : Pending × ByteSet → ByteSet
  | (.range _, set) => set.insert Byte.hyphen
  | (_, set) => set

def collect (ms : List Member) : ByteSet := finish (ms.foldl step (.nothing, .empty))

/-- The set that members list, closed under case where case is ignored. -/
def toSet (caseSensitive : Bool) (ms : List Member) : ByteSet :=
  if caseSensitive then collect ms else (collect ms).foldCase

/-! ## Whole expressions -/

/-- Reads the bracket expression whose `[` stands just before the text. -/
def read? (caseSensitive : Bool) : Bytes → Option (ByteSet × Bytes)
  | [] => none
  | c :: rest =>
    if c = Byte.caret then
      (listed? rest).map fun r => ((toSet caseSensitive r.1).negate, r.2)
    else (listed? (c :: rest)).map fun r => (toSet caseSensitive r.1, r.2)

theorem length_members? {s : Bytes} {r : List Member × Bytes} (h : members? s = some r) :
    r.2.length < s.length := by
  fun_induction members? s generalizing r with
  | case1 => simp at h
  | case2 =>
    obtain rfl := Option.some.inj h
    simp
  | case3 => simp at h
  | case4 c rest hc m after hm ih =>
    obtain ⟨a, ha, rfl⟩ := Option.map_eq_some_iff.1 h
    have := Member.length_read?_le hm
    have := ih ha
    simp only [List.length_cons] at *
    omega

theorem length_listed? {s : Bytes} {r : List Member × Bytes} (h : listed? s = some r) :
    r.2.length < s.length := by
  cases s with
  | nil => simp [listed?] at h
  | cons c rest =>
    simp only [listed?] at h
    split at h
    · obtain ⟨a, ha, rfl⟩ := Option.map_eq_some_iff.1 h
      have := length_members? ha
      simp only [List.length_cons]
      omega
    · exact length_members? h

theorem length_read? {caseSensitive : Bool} {s : Bytes} {r : ByteSet × Bytes}
    (h : read? caseSensitive s = some r) : r.2.length < s.length := by
  cases s with
  | nil => simp [read?] at h
  | cons c rest =>
    simp only [read?] at h
    split at h <;> obtain ⟨a, ha, rfl⟩ := Option.map_eq_some_iff.1 h <;>
      have := length_listed? ha <;> simp only [List.length_cons] at * <;> omega

end Bytewise.Pattern.Bracket
