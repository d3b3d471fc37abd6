/-
# Bytewise.Needle.Replace -- replacing what is found

`Needle.replace` replaces the occurrences of a needle from left to right, and
goes on right behind what it has put in: no byte of a replacement is ever looked
at again.  Behind an empty occurrence one byte is passed over, so that it is not
found again.  The spans it gives are the occurrences, each in the bytes as they
stood when it was found.
-/
import Bytewise.Needle

namespace Bytewise

set_option autoImplicit false

namespace Needle

open Pattern (Span)

/-- Where the search goes on after an occurrence has been replaced. -/
def resume (span : Span) (replacement : Bytes) : Nat :=
  span.start + replacement.length + (if span.length = 0 then 1 else 0)

/-- Replaces at most `fuel` occurrences from `index` on.  The spans are those found, each in the
bytes as they stood when it was found. -/
def replaceFrom (n : Needle) (replacement : Bytes) :
    Nat → Nat → Subject → List Span × Subject
  | 0, _, s => ([], s)
  | fuel + 1, index, s =>
    if index < s.size then
      match n.find? s index with
      | none => ([], s)
      | some span =>
        let rest := replaceFrom n replacement fuel (resume span replacement)
          (s.splice span.start span.length replacement)
        (span :: rest.1, rest.2)
    else ([], s)

/-- Replaces all occurrences.  Every step leaves fewer bytes to look at, so there are at most as
many steps as bytes. -/
def replace (n : Needle) (replacement s : Bytes) : List Span × Bytes :=
  let r := n.replaceFrom replacement s.length 0 (.ofBytes s)
  (r.1, r.2.toList)

end Needle

end Bytewise
