/-!
# Hexadecimal text

Numbers in diagnostics are written in base sixteen with a `0x` sign in front.
-/

namespace DalvikCode

/-- `hex digits n` is `0x` followed by `n` in lowercase base sixteen, filled up with zeros to at
least `digits` digits. -/
def hex (digits n : Nat) : String :=
  "0x" ++ String.ofList (List.leftpad digits '0' (Nat.toDigits 16 n))

end DalvikCode
