/-!
# Limits of a reader

How deep collections may nest and how long a text may be.
-/

namespace Edn

/-- The greatest nesting depth, and the greatest length of a text in bytes if there is one. -/
structure Limits where
  maxDepth : Nat
  maxLength : Option Nat
deriving DecidableEq, Repr

namespace Limits

/-- The limits that hold unless others are chosen. -/
def standard : Limits :=
  ⟨512, none⟩

/-- Limits for texts from outside: shallow nesting and at most a mebibyte. -/
def strict : Limits :=
  ⟨64, some 1048576⟩

/-- Limits for texts of known origin. -/
def permissive : Limits :=
  ⟨1024, none⟩

end Limits

end Edn
