import DalvikCode.Bytes

/-!
# Cursors

A `Cursor` is a position in a byte array, and a `Reader` is a computation that moves one.  A reader
that fails leaves the cursor behind the last part that it did read, so failures can be located and
reading can go on elsewhere.
-/

namespace DalvikCode

/-- A position in a byte array. -/
structure Cursor where
  data : ByteArray
  pos : Nat
  deriving DecidableEq

namespace Cursor

/-- The cursor in front of the first byte. -/
def start (data : ByteArray) : Cursor := ⟨data, 0⟩

/-- The cursor at `pos`, which may be the end of the data but not beyond. -/
def at? (data : ByteArray) (pos : Nat) : Except DecodeError Cursor :=
  if pos ≤ data.size then .ok ⟨data, pos⟩ else .error .outOfBounds

def hasMore (c : Cursor) : Bool := c.pos < c.data.size

def remaining (c : Cursor) : Nat := c.data.size - c.pos

end Cursor

/-- A computation that reads through a cursor; the cursor survives a failure. -/
abbrev Reader (α : Type) := EStateM DecodeError Cursor α

namespace Reader

def position : Reader Nat := fun c => .ok c.pos c

/-- Fails because of a malformation. -/
def malformed {α : Type} (what : Malformation) : Reader α := throw (.malformed what)

/-! ## 1. Moving -/

/-- Moves to `pos`, which has to be the position of a byte. -/
def seek (pos : Nat) : Reader Unit := fun c =>
  if pos < c.data.size then .ok () { c with pos } else .error .outOfBounds c

/-- Moves over `n` bytes, which have to be present. -/
def skip (n : Nat) : Reader Unit := fun c =>
  if c.pos + n ≤ c.data.size then .ok () { c with pos := c.pos + n } else .error .outOfBounds c

/-- Moves to the next multiple of `n`, which must not lie beyond the end. -/
def align (n : Nat) : Reader Unit := do
  skip ((n - (← position) % n) % n)

/-! ## 2. Reading -/

/-- Reads a number of `width` bytes. -/
def number (width : Nat) : Reader Nat := fun c =>
  if c.pos + width ≤ c.data.size then
    .ok (Bytes.number c.data c.pos width) { c with pos := c.pos + width }
  else .error .outOfBounds c

/-- Reads `length` bytes as they stand. -/
def take (length : Nat) : Reader ByteArray := fun c =>
  if c.pos + length ≤ c.data.size then
    .ok (c.data.extract c.pos (c.pos + length)) { c with pos := c.pos + length }
  else .error .outOfBounds c

/-- Reads a value of an integer type. -/
def scalar (s : Scalar) : Reader Int := s.value <$> number s.width

/-- The value of an integer type that follows, without moving. -/
def peek (s : Scalar) : Reader Int := fun c =>
  match scalar s c with
  | .ok v _ => .ok v c
  | .error e _ => .error e c

def byte : Reader Nat := number 1

theorem byte_of_le {c : Cursor} (h : c.data.size ≤ c.pos) : byte c = .error .outOfBounds c := by
  simp only [byte, number, Nat.not_le.mpr (Nat.lt_succ_of_le h), ↓reduceIte]

def u16 : Reader UInt16 := UInt16.ofNat <$> number 2

def u32 : Reader UInt32 := UInt32.ofNat <$> number 4

def i8 : Reader Int := scalar .i8

def i16 : Reader Int := scalar .i16

def i32 : Reader Int := scalar .i32

def i64 : Reader Int := scalar .i64

/-- Reads `n` things in a row behind those already read. -/
def timesOnto {α : Type} (r : Reader α) : Nat → Array α → Reader (Array α)
  | 0, done => pure done
  | n + 1, done => do timesOnto r n (done.push (← r))

def times {α : Type} (n : Nat) (r : Reader α) : Reader (Array α) := timesOnto r n #[]

end Reader

end DalvikCode
