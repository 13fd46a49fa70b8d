/-!
# Limits

How much a decoder is willing to believe of what an image declares.
-/

namespace DalvikCode

/-- Bounds on declared sizes, and whether ranges are checked against the code. -/
structure Limits where
  /-- The number of typed handlers that one record may declare. -/
  maxHandlers : Nat := 65535
  /-- The number of items that one debug program may emit. -/
  maxDebugItems : Nat := 1048576
  /-- Whether a try block has to lie inside the code of its method. -/
  validateTryRanges : Bool := false
  deriving DecidableEq, Repr

namespace Limits

/-- The limits used where none are given. -/
def standard : Limits := {}

/-- Low bounds and every check, for images that are not trusted. -/
def strict : Limits := { maxHandlers := 4096, maxDebugItems := 65536, validateTryRanges := true }

/-- No bound beyond the widths of the fields. -/
def permissive : Limits :=
  { maxHandlers := 0xffffffff, maxDebugItems := 0xffffffffffffffff, validateTryRanges := false }

instance : Inhabited Limits := ⟨standard⟩

end Limits

end DalvikCode
