import DalvikCode.Debug.Operation
import DalvikCode.Leb128.Encoding

/-!
# Writing debug programs

The bytes of a debug header and of the operations behind it.
-/

namespace DalvikCode

def DebugOp.encode : DebugOp → List UInt8
  | endSequence => [0x00]
  | advancePc delta => 0x01 :: Leb128.ofUnsigned delta.toNat
  | advanceLine delta => 0x02 :: Leb128.ofSigned delta.toInt
  | startLocal register name? type? =>
    0x03 :: Leb128.ofUnsigned register.toNat ++ Leb128.ofIndex? name? ++ Leb128.ofIndex? type?
  | startLocalExtended register name? type? signature? =>
    0x04 :: Leb128.ofUnsigned register.toNat ++ Leb128.ofIndex? name? ++ Leb128.ofIndex? type? ++
      Leb128.ofIndex? signature?
  | endLocal register => 0x05 :: Leb128.ofUnsigned register.toNat
  | restartLocal register => 0x06 :: Leb128.ofUnsigned register.toNat
  | prologueEnd => [0x07]
  | epilogueBegin => [0x08]
  | setFile name? => 0x09 :: Leb128.ofIndex? name?
  | special step => [UInt8.ofNat (0x0a + step.val)]

def DebugHeader.encode (h : DebugHeader) : List UInt8 :=
  Leb128.ofUnsigned h.lineStart.toNat ++ Leb128.ofUnsigned h.parameterNames.size ++
    h.parameterNames.toList.flatMap Leb128.ofIndex?

end DalvikCode
