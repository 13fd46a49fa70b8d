import DalvikCode.Leb128

/-!
# Writing LEB128 numbers

The shortest encodings, and what an encoding of any length stands for by the place values of its
groups.
-/

namespace DalvikCode.Leb128

/-! ## 1. Values -/

/-- Whether another group follows the one in a byte. -/
def Continues (b : UInt8) : Prop := 0x80 ≤ b.toNat

instance (b : UInt8) : Decidable (Continues b) := inferInstanceAs (Decidable (_ ≤ _))

/-- Whether some bytes are the groups of one number: all but the last continue. -/
def IsEncoding : List UInt8 → Prop
  | [] => False
  | [b] => ¬ Continues b
  | b :: bs => Continues b ∧ IsEncoding bs

instance decidableIsEncoding : (bs : List UInt8) → Decidable (IsEncoding bs)
  | [] => inferInstanceAs (Decidable False)
  | [_] => inferInstanceAs (Decidable (¬ _))
  | _ :: b :: bs =>
    have := decidableIsEncoding (b :: bs)
    inferInstanceAs (Decidable (_ ∧ _))

/-- The unsigned number that groups stand for. -/
def unsignedValue : List UInt8 → Nat
  | [] => 0
  | b :: bs => b.toNat % 0x80 + 0x80 * unsignedValue bs

/-- The signed number that groups stand for: bit 6 of the last one counts negatively. -/
def signedValue (bs : List UInt8) : Int :=
  unsignedValue bs -
    if bs.getLast?.any (fun b => 0x40 ≤ b.toNat % 0x80) then (2 ^ (7 * bs.length) : Nat) else 0

/-! ## 2. Encodings -/

/-- The shortest encoding of an unsigned number. -/
def ofUnsigned (n : Nat) : List UInt8 :=
  if n < 0x80 then [UInt8.ofNat n] else UInt8.ofNat (n % 0x80 + 0x80) :: ofUnsigned (n / 0x80)
  termination_by n
  decreasing_by omega

/-- The shortest encoding of a signed number. -/
def ofSigned (z : Int) : List UInt8 :=
  if -0x40 ≤ z ∧ z < 0x40 then [UInt8.ofNat (z % 0x80).toNat]
  else UInt8.ofNat ((z % 0x80).toNat + 0x80) :: ofSigned (z / 0x80)
  termination_by z.natAbs
  decreasing_by omega

/-- The encoding of an optional index. -/
def ofIndex? : Option UInt32 → List UInt8
  | none => ofUnsigned 0
  | some index => ofUnsigned (index.toNat + 1)

end DalvikCode.Leb128
