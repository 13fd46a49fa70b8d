import DalvikCode.Method.Body
import DalvikCode.Proofs.LookingAhead

/-!
# Opening a body

A body is opened by reading the sixteen bytes of its header, which have to be there.  It keeps what
it has been opened with, and depends on nothing else in the image.
-/

namespace DalvikCode

open Bytes

namespace CodeHeader

theorem place_of_read {image : ByteArray} {codeOffset : Nat} {h : CodeHeader}
    (ok : read image codeOffset = .ok h) :
    h.codeOffset = codeOffset ∧ codeOffset + byteSize ≤ image.size := by
  rw [read] at ok
  split at ok
  · next fits =>
    -- past the six fields
    obtain ⟨_, -, ok⟩ := bind_eq_ok_iff.mp ok
    obtain ⟨_, -, ok⟩ := bind_eq_ok_iff.mp ok
    obtain ⟨_, -, ok⟩ := bind_eq_ok_iff.mp ok
    obtain ⟨_, -, ok⟩ := bind_eq_ok_iff.mp ok
    obtain ⟨_, -, ok⟩ := bind_eq_ok_iff.mp ok
    obtain ⟨_, -, ok⟩ := bind_eq_ok_iff.mp ok
    cases ok
    exact ⟨rfl, fits⟩
  · cases ok

theorem read_of_sameOn {image image' : ByteArray} {codeOffset : Nat}
    (same : SameOn image image' codeOffset (codeOffset + byteSize)) :
    read image' codeOffset = read image codeOffset := by
  have inside := same.le_size
  have inside' := same.le_size'
  rw [read, read, if_pos inside, if_pos inside']
  rw [byteSize] at same
  have word {k : Nat} (fits : k + 2 ≤ 16) : u16At image' (codeOffset + k) =
      u16At image (codeOffset + k) :=
    (same.mono (by omega) (by omega) (by omega)).u16At_eq
  have small {k : Nat} (fits : k + 4 ≤ 16) : smallAt image' (codeOffset + k) =
      smallAt image (codeOffset + k) :=
    (same.mono (by omega) (by omega) (by omega)).smallAt_eq
  rw [show u16At image' codeOffset = u16At image codeOffset from word (k := 0) (by decide),
    word (by decide), word (by decide), word (by decide), small (by decide), small (by decide)]

end CodeHeader

namespace MethodBody

-- A body keeps what it has been opened with.
theorem of_read {image : ByteArray} {codeOffset : Nat} {context : MethodContext} {limits : Limits}
    {b : MethodBody} (opened : read image codeOffset context limits = .ok b) :
    b.image = image ∧ CodeHeader.read image codeOffset = .ok b.header ∧ b.context = context ∧
      b.limits = limits := by
  obtain ⟨header, ok, opened⟩ := bind_eq_ok_iff.mp opened
  obtain ⟨stop, -, opened⟩ := bind_eq_ok_iff.mp opened
  cases opened
  exact ⟨rfl, ok, rfl, rfl⟩

theorem read_of_sameOn {image image' : ByteArray} {codeOffset : Nat}
    (same : SameOn image image' codeOffset (codeOffset + CodeHeader.byteSize))
    (context : MethodContext) (limits : Limits) : read image' codeOffset context limits =
      (fun b => { b with image := image' }) <$> read image codeOffset context limits := by
  rw [read, read, CodeHeader.read_of_sameOn same]
  cases CodeHeader.read image codeOffset with
  | error e => rfl
  | ok header =>
    rw [ok_bind, ok_bind]
    cases header.instructionsStop <;> rfl

end MethodBody

end DalvikCode
