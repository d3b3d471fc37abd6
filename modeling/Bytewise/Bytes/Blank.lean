/-
# Bytewise.Bytes.Blank -- white space in bytes

`strip` takes white space off both ends; `words` are the maximal runs of other
bytes, and `simplify` joins them by single spaces.
-/
import Bytewise.Byte

namespace Bytewise.Bytes

set_option autoImplicit false

/-- The bytes without white space at either end. -/
def strip (s : Bytes) : Bytes :=
  ((s.dropWhile Byte.isBlank).reverse.dropWhile Byte.isBlank).reverse

/-- Cuts bytes at every white-space byte; between two of them there may be nothing. -/
def fields : Bytes → List Bytes
  | [] => [[]]
  | b :: rest =>
    if Byte.isBlank b then [] :: fields rest
    else
      match fields rest with
      | [] => [[b]]
      | w :: ws => (b :: w) :: ws

/-- The runs of bytes between white space. -/
def words (s : Bytes) : List Bytes := (fields s).filter (· ≠ [])

/-- Joins words by single spaces. -/
def unwords : List Bytes → Bytes
  | [] => []
  | [w] => w
  | w :: ws => w ++ Byte.space :: unwords ws

def simplify (s : Bytes) : Bytes := unwords (words s)

end Bytewise.Bytes
