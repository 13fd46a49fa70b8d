import DalvikCode.Proofs.Method.Opening
import DalvikCode.Proofs.Trapping.Operations

/-!
# Opening a method on machine words

The end of a header is computed with a check, and lies in the image.  The offsets of its fields and
of the first instruction are computed without one, as they lie before it.  Offsets that are derived
from its fields are checked again, up to the handler records.
-/

namespace DalvikCode.Trapping

/-! ## 1. Results -/

section
variable {α β γ : Type}

theorem bind_of_eq {x : Except Fault α} {y : Except DecodeError α} {f : α → Except Fault β}
    {g : α → Except DecodeError β} (first : x = ofExcept y)
    (second : ∀ a, y = .ok a → f a = ofExcept (g a)) : (x >>= f) = ofExcept (y >>= g) := by
  subst first
  cases y with
  | error e => rfl
  | ok a => exact second a rfl

theorem map_of_eq {x : Except Fault α} {y : Except DecodeError α} (f : α → β)
    (h : x = ofExcept y) : f <$> x = ofExcept (f <$> y) := by
  rw [map_eq_pure_bind, map_eq_pure_bind]
  exact bind_of_eq h fun _ _ => rfl

theorem bind_operation {x : Except Trap γ} {v : γ} {f : γ → Except Fault β} {z : Except Fault β}
    (h : x = .ok v) (k : f v = z) : ((liftM x : Except Fault γ) >>= f) = z := by
  rw [h]
  exact k

theorem ofExcept_eq_ok {x : Except DecodeError α} {a : α} : ofExcept x = .ok a ↔ x = .ok a := by
  cases x with
  | error e => exact iff_of_false nofun nofun
  | ok b =>
    show (Except.ok b : Except Fault α) = .ok a ↔ _
    rw [Except.ok.injEq, Except.ok.injEq]

end

/-! ## 2. Fields at an offset -/

/-- The result of a checked operation, which has to be a word. -/
def checked (x : Option Nat) : Except Fault Nat :=
  match x with
  | some n => .ok n
  | none => .error (.failed .outOfBounds)

/-- The number in the `width` bytes from `offset`, all of which have to be present. -/
def numberAt (data : ByteArray) (offset width : Nat) : Except Fault Nat :=
  match number width ⟨data, offset⟩ with
  | .ok n _ => .ok n
  | .error f _ => .error f

def u16At (data : ByteArray) (offset : Nat) : Except Fault UInt16 :=
  UInt16.ofNat <$> numberAt data offset 2

def smallAt (data : ByteArray) (offset : Nat) : Except Fault UInt32 := do
  let n ← numberAt data offset 4
  if n < 2 ^ 31 then return UInt32.ofNat n
  else throw (.failed (.malformed (.smallFieldOutOfRange offset)))

theorem checkedAdd_eq (a b : Nat) :
    checked (checkedAdd a b) = ofExcept (checkedOffset (a + b)) := by
  rw [checkedAdd, checkedOffset]
  split <;> rfl

theorem checkedMul_of_lt {a b : Nat} (h : a * b < 2 ^ 64) :
    checked (checkedMul a b) = .ok (a * b) := by
  rw [checkedMul, if_pos h]
  rfl

section
variable {data : ByteArray} (size_lt : data.size < 2 ^ 63) (offset : Nat)
include size_lt

theorem numberAt_eq (width : Nat) :
    numberAt data offset width = ofExcept (Bytes.numberAt data offset width) := by
  rw [numberAt, number_eq width ⟨data, offset⟩ size_lt, ofReader, Reader.number, Bytes.numberAt]
  by_cases fits : offset + width ≤ data.size
  · simp only [if_pos fits]
    rfl
  · simp only [if_neg fits]
    rfl

theorem u16At_eq : u16At data offset = ofExcept (Bytes.u16At data offset) :=
  map_of_eq _ (numberAt_eq size_lt offset 2)

theorem smallAt_eq : smallAt data offset = ofExcept (Bytes.smallAt data offset) := by
  refine bind_of_eq (numberAt_eq size_lt offset 4) fun n _ => ?_
  split <;> rfl

end

/-! ## 3. Headers -/

/-- Reads the fields of the header at `codeOffset`. -/
def headerFields (image : ByteArray) (codeOffset : Nat) : Except Fault CodeHeader := do
  let registers ← u16At image (← add 64 codeOffset 0)
  let ins ← u16At image (← add 64 codeOffset 2)
  let outs ← u16At image (← add 64 codeOffset 4)
  let tries ← u16At image (← add 64 codeOffset 6)
  let debugInfoOffset ← smallAt image (← add 64 codeOffset 8)
  let codeSize ← smallAt image (← add 64 codeOffset 12)
  return { codeOffset, registers, ins, outs, tries, debugInfoOffset, codeSize }

def readHeader (image : ByteArray) (codeOffset : Nat) : Except Fault CodeHeader := do
  let stop ← checked (checkedAdd codeOffset CodeHeader.byteSize)
  if stop ≤ image.size then headerFields image codeOffset else throw (.failed .outOfBounds)

def instructionsStart (h : CodeHeader) : Except Trap Nat :=
  add 64 h.codeOffset CodeHeader.byteSize

def instructionsStop (h : CodeHeader) : Except Fault Nat := do
  let length ← checked (checkedMul h.codeSize.toNat 2)
  let start ← instructionsStart h
  checked (checkedAdd start length)

def triesStart (h : CodeHeader) : Except Fault Nat := do
  let aligned ← checked (checkedAdd (← instructionsStop h) 3)
  return aligned / 4 * 4

def handlersStart (h : CodeHeader) : Except Fault Nat := do
  let start ← triesStart h
  let length ← mul 64 h.tries.toNat CodeHeader.tryItemSize
  checked (checkedAdd start length)

theorem headerFields_eq {image : ByteArray} {codeOffset : Nat} (size_lt : image.size < 2 ^ 63)
    (fits : codeOffset + CodeHeader.byteSize ≤ image.size) :
    headerFields image codeOffset = ofExcept (CodeHeader.read image codeOffset) := by
  -- every field lies before the end of the header, which has been found to be in the slice
  have field : ∀ k ≤ 12, add 64 codeOffset k = .ok (codeOffset + k) := by
    intro k le
    rw [CodeHeader.byteSize] at fits
    exact add_of_lt (by omega)
  rw [headerFields, CodeHeader.read, if_pos fits]
  refine bind_operation (field 0 (by decide)) (bind_of_eq (u16At_eq size_lt _) fun _ _ => ?_)
  refine bind_operation (field 2 (by decide)) (bind_of_eq (u16At_eq size_lt _) fun _ _ => ?_)
  refine bind_operation (field 4 (by decide)) (bind_of_eq (u16At_eq size_lt _) fun _ _ => ?_)
  refine bind_operation (field 6 (by decide)) (bind_of_eq (u16At_eq size_lt _) fun _ _ => ?_)
  refine bind_operation (field 8 (by decide)) (bind_of_eq (smallAt_eq size_lt _) fun _ _ => ?_)
  exact bind_operation (field 12 (by decide)) (bind_of_eq (smallAt_eq size_lt _) fun _ _ => rfl)

theorem readHeader_eq {image : ByteArray} (size_lt : image.size < 2 ^ 63) (codeOffset : Nat) :
    readHeader image codeOffset = ofExcept (CodeHeader.read image codeOffset) := by
  rw [readHeader, checkedAdd_eq, checkedOffset]
  by_cases fits : codeOffset + CodeHeader.byteSize ≤ image.size
  · have word : codeOffset + CodeHeader.byteSize < 2 ^ 64 := by omega
    rw [if_pos word]
    show (if codeOffset + CodeHeader.byteSize ≤ image.size then _ else _) = _
    rw [if_pos fits, headerFields_eq size_lt fits]
  · rw [CodeHeader.read, if_neg fits]
    split
    · show (if codeOffset + CodeHeader.byteSize ≤ image.size then _ else _) = _
      rw [if_neg fits]
      rfl
    · rfl

/-- The header lies in a slice. -/
def InSlice (h : CodeHeader) : Prop := h.codeOffset + CodeHeader.byteSize < 2 ^ 63

theorem inSlice_of_read {image : ByteArray} {codeOffset : Nat} {h : CodeHeader}
    (size_lt : image.size < 2 ^ 63) (ok : CodeHeader.read image codeOffset = .ok h) :
    InSlice h := by
  obtain ⟨rfl, fits⟩ := CodeHeader.place_of_read ok
  exact Nat.lt_of_le_of_lt fits size_lt

section
variable {h : CodeHeader} (inside : InSlice h)
include inside

theorem instructionsStart_eq : instructionsStart h = .ok h.instructionsStart := by
  have lt : h.codeOffset + CodeHeader.byteSize < 2 ^ 63 := inside
  exact add_of_lt (Nat.lt_trans lt (by decide))

theorem instructionsStop_eq : instructionsStop h = ofExcept h.instructionsStop := by
  -- a product of 32 bits and two is a word, so only the sum can fail
  have size_lt := h.codeSize.toNat_lt
  rw [instructionsStop, checkedMul_of_lt (by omega)]
  refine bind_operation (instructionsStart_eq inside) ?_
  rw [checkedAdd_eq, Nat.mul_comm]
  rfl

theorem triesStart_eq : triesStart h = ofExcept h.triesStart :=
  bind_of_eq (instructionsStop_eq inside) fun stop _ =>
    bind_of_eq (checkedAdd_eq stop 3) fun _ _ => rfl

theorem handlersStart_eq : handlersStart h = ofExcept h.handlersStart := by
  have tries_lt := h.tries.toNat_lt
  have word : h.tries.toNat * CodeHeader.tryItemSize < 2 ^ 64 := by
    rw [CodeHeader.tryItemSize]
    omega
  refine bind_of_eq (triesStart_eq inside) fun start _ => bind_operation (mul_of_lt word) ?_
  rw [checkedAdd_eq, Nat.mul_comm]

end

/-! ## 4. Bodies -/

def openBody (image : ByteArray) (codeOffset : Nat) (context : MethodContext) (limits : Limits) :
    Except Fault MethodBody := do
  let header ← readHeader image codeOffset
  return { image, header, codeStop := ← instructionsStop header, context, limits }

def instructions (b : MethodBody) : Except Trap InstructionStream := do
  return { image := b.image, start := ← instructionsStart b.header, stop := b.codeStop }

def tryTable (b : MethodBody) : Except Fault TryTable := do
  if b.header.tries = 0 then return .empty b.image
  return {
    image := b.image
    triesStart := ← triesStart b.header
    handlersStart := ← handlersStart b.header
    count := b.header.tries.toNat
    codeSize := b.header.codeSize
    limits := b.limits }

theorem openBody_eq {image : ByteArray} (size_lt : image.size < 2 ^ 63) (codeOffset : Nat)
    (context : MethodContext) (limits : Limits) :
    openBody image codeOffset context limits =
      ofExcept (MethodBody.read image codeOffset context limits) :=
  bind_of_eq (readHeader_eq size_lt codeOffset) fun _ ok =>
    bind_of_eq (instructionsStop_eq (inSlice_of_read size_lt ok)) fun _ _ => rfl

section
variable {b : MethodBody} (inside : InSlice b.header)
include inside

theorem instructions_eq : instructions b = .ok b.instructions := by
  rw [instructions, instructionsStart_eq inside]
  rfl

theorem tryTable_eq : tryTable b = ofExcept b.tryTable := by
  rw [tryTable, MethodBody.tryTable]
  split
  · rfl
  · exact bind_of_eq (triesStart_eq inside) fun _ _ =>
      bind_of_eq (handlersStart_eq inside) fun _ _ => rfl

end

end DalvikCode.Trapping
