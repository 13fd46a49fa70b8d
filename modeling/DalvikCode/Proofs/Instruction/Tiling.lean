import Mathlib
import DalvikCode.Proofs.Instruction.Codec
import DalvikCode.Proofs.Instruction.Stream

/-!
# Instructions side by side

An instruction takes a whole number of code units, which its format or its tables tell.  So the
instructions that a walk passes lie side by side in their stream, and each is at the address where
the one before it ends.
-/

namespace DalvikCode

/-! ## 1. Sizes -/

theorem Operands.length_fields {opcode : UInt8} {format : OperandFormat} {operands : Operands}
    {high : Nat} {rest : List UInt8} (fields : operands.fields? opcode format = some (high, rest)) :
    2 + rest.length = 2 * format.units := by
  unfold Operands.fields? at fields
  split at fields
  all_goals cases fields <;> simp only [List.length_append, Bytes.length_ofNumber,
    Bytes.length_ofSigned, RegisterList.slotBytes, List.length_cons, List.length_nil,
    OperandFormat.units]

/-- The number of code units that a payload takes; one byte of array data takes a whole unit. -/
def Payload.units : Payload → Nat
  | packedSwitch _ targets => 4 + 2 * (targets.size / 4)
  | sparseSwitch _ targets => 2 + 4 * (targets.size / 4)
  | array elementWidth elementCount _ => 4 + (elementWidth.toNat * elementCount.toNat + 1) / 2

theorem Payload.length_encode {p : Payload} (fits : p.Fits) : p.encode.length = 2 * p.units := by
  cases p with
  | packedSwitch firstKey targets =>
    obtain ⟨whole, -⟩ := fits
    simp only [encode, units, List.length_append, Bytes.length_ofNumber, Bytes.length_ofSigned,
      Array.length_toList, ByteArray.size_data]
    omega
  | sparseSwitch keys targets =>
    obtain ⟨whole, -, same⟩ := fits
    simp only [encode, units, List.length_append, Bytes.length_ofNumber, Array.length_toList,
      ByteArray.size_data]
    omega
  | array elementWidth elementCount data =>
    have filled : data.size = elementWidth.toNat * elementCount.toNat := fits
    simp only [encode, units, List.length_append, Bytes.length_ofNumber, Array.length_toList,
      ByteArray.size_data, List.length_replicate, ← filled]
    omega

namespace Instruction

/-- The number of code units of an instruction with a given format and operands. -/
def units : Format → Operands → Nat
  | .operands format, _ => format.units
  | .payload _, .payload table => table.units
  | .payload _, _ => 0

theorem length_of_encode? {opcode : UInt8} {format : Format} {operands : Operands}
    {code : List UInt8} (encodable : Encodable opcode format operands)
    (encoded : encode? opcode format operands = some code) :
    code.length = 2 * units format operands := by
  cases format with
  | operands format =>
    simp only [encode?, bind, Option.bind_eq_some_iff] at encoded
    obtain ⟨⟨high, rest⟩, fields, ⟨⟩⟩ := encoded
    rw [units, ← Operands.length_fields fields]
    exact Nat.add_comm rest.length 2
  | payload kind =>
    cases operands with
    | payload table =>
      cases encoded
      exact Payload.length_encode encodable.2.2
    | _ => exact encodable.elim

/-- The bytes of an instruction are those of a whole number of code units. -/
theorem Spells.length_eq {bs : List UInt8} {x : Content} (h : Spells bs x) :
    bs.length = 2 * units x.format x.operands := by
  obtain ⟨encodable, code, encoded, length, -⟩ := spells_iff_written.mp h
  rw [length, length_of_encode? encodable encoded]

end Instruction

namespace InstructionStream

open Instruction

/-! ## 2. Walks -/

namespace Traversal

/-- Calling `next` from `t` on yields the instructions one by one, and the walk then stands at
`u`, where it may go on. -/
inductive Walks : Traversal → List Instruction → Traversal → Prop where
  | here (t : Traversal) : Walks t [] t
  | next {t u v : Traversal} {i : Instruction} {is : List Instruction}
      (h : t.next = (some (.ok i), u)) (more : Walks u is v) : Walks t (i :: is) v

end Traversal

open Traversal

-- The stream is short enough for all of its addresses to be words.
theorem toNat_addressAt {s : InstructionStream} (small : s.stop - s.start ≤ 2 ^ 33) {k : Nat}
    (inside : s.start + 2 * k < s.stop) : (s.addressAt (s.start + 2 * k)).toNat = k := by
  rw [addressAt, Nat.add_sub_cancel_left, Nat.mul_div_cancel_left _ (by decide)]
  exact UInt32.toNat_ofNat_of_lt' (show k < 2 ^ 32 by omega)

/-- The instructions stand side by side from the code unit `k` of the stream on, and `position` is
where they end. -/
structure TilesFrom (s : InstructionStream) (k : Nat) (items : List Instruction)
    (position : Nat) : Prop where
  first : ∀ i ∈ items.head?, i.offset = s.start + 2 * k ∧ i.address.toNat = k
  chain : items.IsChain fun i j =>
    j.offset = i.offset + i.byteLength ∧ j.address.toNat = i.nextAddress
  place : ∀ i ∈ items, i.offset = s.start + 2 * i.address.toNat
  last : ∀ i ∈ items.getLast?, position = i.offset + i.byteLength
  total : position = s.start + 2 * (k + (items.map (·.size)).sum)

theorem le_of_next_eq_none {s : InstructionStream} {position : Nat}
    (ended : (Traversal.next { stream := s, position }).1 = none) : s.stop ≤ position := by
  rcases Nat.lt_or_ge position s.stop with inside | behind
  · rw [next_of_lt s inside] at ended
    cases decoded : s.decodeAt s.view position <;> rw [decoded] at ended <;> cases ended
  · exact behind

section
variable {s : InstructionStream} (standard : s.decoder = Instruction.decode)
include standard

-- A call that yields an instruction moves over all of its code units, and over nothing else.
theorem place_of_next {position : Nat} {i : Instruction} {u : Traversal}
    (ok : Traversal.next { stream := s, position } = (some (.ok i), u)) :
    i.offset = position ∧ i.address = s.addressAt position ∧ position < s.stop ∧
      position + i.byteLength ≤ s.stop ∧
      u = { stream := s, position := position + i.byteLength } := by
  rcases Nat.lt_or_ge position s.stop with inside | behind
  · rw [next_of_lt s inside] at ok
    cases decoded : s.decodeAt s.view position with
    | ok d =>
      rw [decoded] at ok
      cases ok
      obtain ⟨bs, x, spells, -, within, instruction_eq, next_eq⟩ :=
        (decodeAt_eq_ok_iff standard).mp decoded
      have length : d.instruction.byteLength = bs.length := by
        rw [instruction_eq]
        show 2 * (bs.length / 2) = bs.length
        rw [spells.length_eq, Nat.mul_div_cancel_left _ (by decide)]
      rw [length, next_eq, instruction_eq]
      exact ⟨rfl, rfl, inside, within, rfl⟩
    | error e =>
      rw [decoded] at ok
      cases ok
  · rw [next_of_le behind] at ok
    cases ok

theorem tilesFrom_of_walks (small : s.stop - s.start ≤ 2 ^ 33) {k : Nat}
    {items : List Instruction} {t : Traversal}
    (walk : Walks { stream := s, position := s.start + 2 * k } items t) :
    TilesFrom s k items t.position ∧ t = { stream := s, position := t.position } ∧
      (s.start + 2 * k ≤ s.stop → t.position ≤ s.stop) := by
  induction items generalizing k with
  | nil =>
    cases walk
    refine ⟨⟨?_, .nil, List.forall_mem_nil _, ?_, rfl⟩, rfl, id⟩ <;> rintro _ ⟨⟩
  | cons i items ih =>
    cases walk with
    | next ok more =>
      obtain ⟨offset_eq, address_eq, inside, within, rfl⟩ := place_of_next standard ok
      rw [Instruction.byteLength, Nat.add_assoc, ← Nat.mul_add] at more within
      obtain ⟨rest, running, bound⟩ := ih more
      have address_eq : i.address.toNat = k := by
        rw [address_eq, toNat_addressAt small inside]
      have stop_eq : i.offset + i.byteLength = s.start + 2 * (k + i.size) := by
        rw [offset_eq, Instruction.byteLength, Nat.mul_add, Nat.add_assoc]
      refine ⟨⟨?_, ?_, ?_, ?_, ?_⟩, running, fun _ => bound within⟩
      · rintro _ ⟨⟩
        exact ⟨offset_eq, address_eq⟩
      · refine List.isChain_cons.mpr ⟨fun j first => ?_, rest.chain⟩
        obtain ⟨offset_eq', address_eq'⟩ := rest.first j first
        rw [Instruction.nextAddress, address_eq]
        exact ⟨offset_eq'.trans stop_eq.symm, address_eq'⟩
      · exact List.forall_mem_cons.mpr ⟨by rw [offset_eq, address_eq], rest.place⟩
      · cases items with
        | nil =>
          rintro _ ⟨⟩
          exact rest.total.trans stop_eq.symm
        | cons j items =>
          rw [List.getLast?_cons_cons]
          exact rest.last
      · rw [rest.total, List.map_cons, List.sum_cons, Nat.add_assoc]

end

/-- However far a walk has come, the instructions that it has passed stand side by side: the first
one at the start of the stream and at address zero, each other one at the offset and at the address
where the one before it ends, and the walk where the last one ends.  If it is at its end, they make
up the stream. -/
theorem tiles_of_walks (image : ByteArray) (start stop : Nat) (small : stop - start ≤ 2 ^ 33) :
    let s : InstructionStream := { image, start, stop }
    ∀ items t, Walks s.traversal items t →
      (∀ i ∈ items.head?, i.offset = start ∧ i.address = 0) ∧
      (items.IsChain fun i j =>
        j.offset = i.offset + i.byteLength ∧ j.address.toNat = i.nextAddress) ∧
      (∀ i ∈ items, i.offset = start + 2 * i.address.toNat) ∧
      (∀ i ∈ items.getLast?, t.position = i.offset + i.byteLength) ∧
      (t.next.1 = none → start ≤ stop → (items.map (·.size)).sum = s.unitCount) := by
  intro s items t walk
  obtain ⟨tiles, running, bound⟩ := tilesFrom_of_walks (s := s) rfl small (k := 0) walk
  refine ⟨fun i first => ?_, tiles.chain, tiles.place, tiles.last, fun ended le => ?_⟩
  · obtain ⟨offset_eq, address_eq⟩ := tiles.first i first
    exact ⟨offset_eq, UInt32.toNat_inj.mp address_eq⟩
  · have reached : stop ≤ t.position := by
      rw [running] at ended
      exact le_of_next_eq_none ended
    have total : t.position = start + 2 * (0 + (items.map (·.size)).sum) := tiles.total
    have bound : t.position ≤ stop := bound le
    rw [unitCount]
    show _ = (stop - start) / 2
    omega

/-- From offset 1 on: a no-operation, an array of one byte with its fill byte, and an unused
opcode. -/
def nopThenArray : InstructionStream where
  image := ⟨#[0xff, 0x00, 0x00, 0x00, 0x03, 0x01, 0x00, 0x01, 0x00, 0x00, 0x00, 0xaa, 0x00, 0x3e,
    0x00]⟩
  start := 1
  stop := 15

theorem tiles_of_walks_before_failure :
    15 - 1 ≤ 2 ^ 33 ∧ ∃ i j t, Walks nopThenArray.traversal [i, j] t ∧
      t.next.1 = some (.error (.malformedInstruction 13 (.unusedOpcode 0x3e))) ∧
      j.offset = 3 ∧ j.address = 1 ∧ j.size = 5 ∧ t.position = j.offset + j.byteLength := by
  have small : 15 - 1 ≤ 2 ^ 33 := by decide
  have walk : Walks nopThenArray.traversal
      [⟨1, 0, 0, .operands .f10x, 1, .none⟩,
        ⟨3, 1, 0, .payload .array, 5, .payload (.array 1 1 ⟨#[0xaa]⟩)⟩]
      { stream := nopThenArray, position := 13 } :=
    .next rfl (.next rfl (.here _))
  obtain ⟨-, -, -, last, -⟩ := tiles_of_walks nopThenArray.image 1 15 small _ _ walk
  exact ⟨small, _, _, _, walk, rfl, rfl, rfl, rfl, last _ rfl⟩

end InstructionStream

end DalvikCode
