import DalvikCode.Proofs.Debug.Traversal
import DalvikCode.Proofs.Instruction.TwoImages
import DalvikCode.Proofs.Method.Opening
import DalvikCode.Proofs.Method.TryTable

/-!
# Views of a body

The instructions, the try blocks and the debug information of a body are found from its header, and
each is read from its own part of the image.  So what the rest of the image holds, and where it ends,
makes no difference to them.
-/

namespace DalvikCode

open Bytes

namespace MethodBody

/-! ## 1. Views without bytes -/

/-- The table of try blocks is there and has no entry, whatever the image holds. -/
structure HasNoTryBlocks (b : MethodBody) : Prop where
  table : ∃ t, b.tryTable = .ok t ∧ t.count = 0 ∧
    ∀ index, t.block index = .error (.noSuchTryBlock index 0)
  covering : ∀ address, b.tryBlockAt address = .ok none

theorem hasNoTryBlocks {b : MethodBody} (none : b.header.tries = 0) : b.HasNoTryBlocks := by
  have table : b.tryTable = .ok (.empty b.image) := if_pos none
  refine ⟨⟨_, table, rfl, fun index => ?_⟩, fun address => ?_⟩
  · rw [TryTable.block_eq]
    exact if_neg (Nat.not_lt_zero index)
  · rw [tryBlockAt, table]
    rfl

/-- Nothing is known about lines and variables, and parameters have no names. -/
structure HasNoDebugInfo (b : MethodBody) : Prop where
  items : ∃ u, DebugInfo.Traversal.Yields b.debugInfo.traversal [] u
  parameters : b.parameters = .ok (b.context.parameterTypes.map fun descriptor => ⟨descriptor, none⟩)

theorem hasNoDebugInfo {b : MethodBody} (none : b.header.debugInfoOffset = 0) :
    b.HasNoDebugInfo := by
  have absent : b.debugInfo.offset? = .none := if_pos none
  refine ⟨⟨_, .ended (DebugInfo.Traversal.next_traversal_of_absent absent) rfl⟩, ?_⟩
  have unnamed : b.debugInfo.parameterNames = .ok [] := by
    rw [DebugInfo.parameterNames, absent]
    rfl
  rw [parameters, DebugInfo.parameters, unnamed, ok_bind]
  -- without names, the place of a parameter has no part in it
  refine congrArg Except.ok (List.ext_getElem ?_ fun i _ _ => ?_)
  · rw [List.length_mapIdx, List.length_map]
    rfl
  · rw [List.getElem_mapIdx, List.getElem_map]
    rfl

/-! ## 2. Views of their own bytes -/

theorem tryTable_of_sameOn {b : MethodBody} {image : ByteArray} {triesStart handlersStart : Nat}
    (some : b.header.tries ≠ 0) (tries : b.header.triesStart = .ok triesStart)
    (handlers : b.header.handlersStart = .ok handlersStart)
    (same : SameOn b.image image triesStart handlersStart) : ∃ t, b.tryTable = .ok t ∧
      ({ b with image } : MethodBody).tryTable = .ok { t with image } ∧
      SameOn t.image image t.triesStart (t.triesStart + CodeHeader.tryItemSize * t.count) := by
  have handlers_eq : handlersStart = triesStart + CodeHeader.tryItemSize * b.header.tries.toNat := by
    rw [CodeHeader.handlersStart, tries, ok_bind, checkedOffset] at handlers
    split at handlers
    · cases handlers
      rfl
    · cases handlers
  refine ⟨{
    image := b.image, triesStart, handlersStart, count := b.header.tries.toNat
    codeSize := b.header.codeSize, limits := b.limits }, ?_, ?_, handlers_eq ▸ same⟩
  · rw [tryTable, if_neg some, tries, handlers]
    rfl
  · rw [tryTable, show ({ b with image } : MethodBody).header = b.header from rfl, if_neg some, tries,
      handlers]
    rfl

/-! ## 3. Two images -/

open InstructionStream.Traversal (Yields)

/-- Two images in which a body opens with the same header.  A walk through the instructions depends
on the bytes of the instructions only, a try block on those of the table only; where the header tells
of no try blocks or of no debug information, they depend on no bytes at all. -/
theorem views_are_apart {image image' : ByteArray} {codeOffset : Nat} {context : MethodContext}
    {limits : Limits} {b b' : MethodBody}
    (opened : read image codeOffset context limits = .ok b)
    (opened' : read image' codeOffset context limits = .ok b')
    (header : image.extract codeOffset (codeOffset + CodeHeader.byteSize) =
      image'.extract codeOffset (codeOffset + CodeHeader.byteSize)) :
    b' = { b with image := image' } ∧
    (SameOn image image' b.instructions.start b.instructions.stop →
      ∃ results t, Yields b.instructions.traversal results t ∧
        Yields b'.instructions.traversal results { t with stream := b'.instructions }) ∧
    (b.header.tries = 0 → b.HasNoTryBlocks ∧ b'.HasNoTryBlocks) ∧
    (b.header.tries ≠ 0 → ∀ triesStart handlersStart, b.header.triesStart = .ok triesStart →
      b.header.handlersStart = .ok handlersStart →
      SameOn image image' triesStart handlersStart →
      (∀ index, (do (← b'.tryTable).block index) = do (← b.tryTable).block index) ∧
      ∀ address, b'.tryBlockAt address = b.tryBlockAt address) ∧
    (b.header.debugInfoOffset = 0 → b.HasNoDebugInfo ∧ b'.HasNoDebugInfo) := by
  obtain ⟨rfl, ok, -⟩ := of_read opened
  obtain ⟨-, ok', -⟩ := of_read opened'
  obtain ⟨-, inside⟩ := CodeHeader.place_of_read ok
  obtain ⟨-, inside'⟩ := CodeHeader.place_of_read ok'
  rw [read_of_sameOn ⟨inside, inside', header⟩, opened] at opened'
  cases opened'
  refine ⟨rfl, fun same => ?_, fun none => ⟨hasNoTryBlocks none, hasNoTryBlocks none⟩,
    fun some triesStart handlersStart tries handlers same => ?_,
    fun none => ⟨hasNoDebugInfo none, hasNoDebugInfo none⟩⟩
  · have walk := b.instructions.yields_run
    exact ⟨_, _, walk, InstructionStream.Traversal.yields_of_sameOn same
      Instruction.looksAhead_decode rfl (Nat.le_refl _) walk⟩
  · obtain ⟨t, table, table', same⟩ := tryTable_of_sameOn some tries handlers same
    refine ⟨fun index => ?_, fun address => ?_⟩
    · rw [table, table']
      exact TryTable.block_of_sameOn same index
    · rw [tryBlockAt, tryBlockAt, table, table']
      exact TryTable.blockAt_of_sameOn same address

/-- From offset 1 on: a body with one code unit and one try block that covers it, which ends with the
table of try blocks. -/
def shorter : ByteArray :=
  ⟨#[0xff, 0x01, 0x00, 0x00, 0x00, 0x00, 0x00, 0x01, 0x00, 0x00, 0x00, 0x00, 0x00, 0x01, 0x00, 0x00,
    0x00, 0x0e, 0x00, 0xaa, 0x00, 0x00, 0x00, 0x00, 0x01, 0x00, 0x00, 0x00]⟩

/-- The same body with other bytes before and behind it, and with other padding. -/
def longer : ByteArray :=
  ⟨#[0x00, 0x01, 0x00, 0x00, 0x00, 0x00, 0x00, 0x01, 0x00, 0x00, 0x00, 0x00, 0x00, 0x01, 0x00, 0x00,
    0x00, 0x0e, 0x00, 0xbb, 0x00, 0x00, 0x00, 0x00, 0x01, 0x00, 0x00, 0x00, 0xcc]⟩

/-- The body at offset 1 of either image. -/
def bodyIn (image : ByteArray) : MethodBody where
  image
  header := ⟨1, 1, 0, 0, 1, 0, 1⟩
  codeStop := 19
  context := .unknown
  limits := .standard

theorem views_are_apart_of_shorter_and_longer :
    (read shorter 1 .unknown .standard = .ok (bodyIn shorter) ∧
      read longer 1 .unknown .standard = .ok (bodyIn longer) ∧
      shorter.extract 1 (1 + CodeHeader.byteSize) = longer.extract 1 (1 + CodeHeader.byteSize)) ∧
    (∃ results t, Yields (bodyIn shorter).instructions.traversal results t ∧
      Yields (bodyIn longer).instructions.traversal results
        { t with stream := (bodyIn longer).instructions }) ∧
    (do (← (bodyIn longer).tryTable).block 0) = .ok ⟨0, 1, 0⟩ ∧
    (bodyIn shorter).HasNoDebugInfo ∧ (bodyIn longer).HasNoDebugInfo := by
  have opened : read shorter 1 .unknown .standard = .ok (bodyIn shorter) := rfl
  have opened' : read longer 1 .unknown .standard = .ok (bodyIn longer) := rfl
  have header : shorter.extract 1 (1 + CodeHeader.byteSize) =
    longer.extract 1 (1 + CodeHeader.byteSize) := by decide
  obtain ⟨-, walks, -, blocks, undebugged⟩ := views_are_apart opened opened' header
  obtain ⟨same, -⟩ := blocks (by decide) 20 28 rfl rfl ⟨by decide, by decide, by decide⟩
  exact ⟨⟨opened, opened', header⟩, walks ⟨by decide, by decide, by decide⟩,
    (same 0).trans rfl, undebugged rfl⟩

end MethodBody

end DalvikCode
