import DalvikCode.Method.TryTable
import DalvikCode.Proofs.LookingAhead

/-!
# Entries and records of a table of try blocks

An entry is read from its own eight bytes; the limits have a say only after that.  In a handler
record they have a say only after its size has been read.
-/

namespace DalvikCode

/-- An outcome `x` under lower limits, where `y` is the outcome under greater ones. -/
def CutsOff {α : Type} (x y : Except DecodeError α) : Prop :=
  x = y ∨ ∃ what, x = .error (.malformed what)

theorem CutsOff.bind {α β : Type} {x : Except DecodeError α} {f g : α → Except DecodeError β}
    (h : ∀ a, CutsOff (f a) (g a)) : CutsOff (x >>= f) (x >>= g) := by
  cases x with
  | ok a => exact h a
  | error e => exact .inl rfl

namespace TryTable

/-! ## 1. Entries -/

/-- What the entry at `offset` of an image says. -/
def entryAt (image : ByteArray) (offset : Nat) : Except DecodeError TryBlock := do
  let _ ← checkedOffset (offset + CodeHeader.tryItemSize)
  return {
    start := ← Bytes.smallAt image offset
    unitCount := ← Bytes.u16At image (offset + 4)
    handlerOffset := ← Bytes.u16At image (offset + 6) }

/-- A block that has been read, if the limits let its range pass. -/
def checkRange (t : TryTable) (index : Nat) (b : TryBlock) : Except DecodeError TryBlock :=
  if t.limits.validateTryRanges ∧ ¬ t.InCode b then
    .error (.malformed (.tryRangeOutsideCode index b.start b.unitCount t.codeSize))
  else .ok b

theorem checkRange_eq_ok_iff {t : TryTable} {index : Nat} {b b' : TryBlock} :
    t.checkRange index b = .ok b' ↔ (t.limits.validateTryRanges → t.InCode b) ∧ b' = b := by
  rw [checkRange]
  split
  · next refused => exact iff_of_false nofun fun admitted => refused.2 (admitted.1 refused.1)
  · next passed =>
    rw [Except.ok.injEq]
    constructor
    · rintro rfl
      exact ⟨fun checked => Decidable.byContradiction fun outside => passed ⟨checked, outside⟩, rfl⟩
    · rintro ⟨-, rfl⟩
      rfl

theorem checkRange_eq_error_iff {t : TryTable} {index : Nat} {b : TryBlock} {e : DecodeError} :
    t.checkRange index b = .error e ↔ (t.limits.validateTryRanges ∧ ¬ t.InCode b) ∧
      e = .malformed (.tryRangeOutsideCode index b.start b.unitCount t.codeSize) := by
  rw [checkRange]
  split
  · next refused =>
    rw [Except.error.injEq]
    exact ⟨fun eq => ⟨refused, eq.symm⟩, fun h => h.2.symm⟩
  · next passed => exact iff_of_false nofun fun h => passed h.1

theorem block_eq (t : TryTable) (index : Nat) : t.block index =
    if index < t.count then
      entryAt t.image (t.triesStart + CodeHeader.tryItemSize * index) >>= t.checkRange index
    else .error (.noSuchTryBlock index t.count) := by
  rw [block, entryAt]
  by_cases listed : index < t.count
  · rw [if_pos listed, if_pos listed]
    dsimp only
    cases checkedOffset (t.triesStart + CodeHeader.tryItemSize * index + CodeHeader.tryItemSize) with
    | error e => rfl
    | ok stop =>
      cases Bytes.smallAt t.image (t.triesStart + CodeHeader.tryItemSize * index) with
      | error e => rfl
      | ok start =>
        cases Bytes.u16At t.image (t.triesStart + CodeHeader.tryItemSize * index + 4) with
        | error e => rfl
        | ok unitCount =>
          cases Bytes.u16At t.image (t.triesStart + CodeHeader.tryItemSize * index + 6) with
          | error e => rfl
          | ok handlerOffset => rfl
  · rw [if_neg listed, if_neg listed]
    rfl

theorem lt_count_of_block {t : TryTable} {index : Nat} {b : TryBlock} (ok : t.block index = .ok b) :
    index < t.count := by
  rw [block_eq] at ok
  split at ok
  · next listed => exact listed
  · cases ok

theorem inCode_of_block {t : TryTable} {index : Nat} {b : TryBlock}
    (checked : t.limits.validateTryRanges) (ok : t.block index = .ok b) : t.InCode b := by
  rw [block_eq] at ok
  split at ok
  · obtain ⟨b', -, passed⟩ := bind_eq_ok_iff.mp ok
    obtain ⟨inCode, rfl⟩ := checkRange_eq_ok_iff.mp passed
    exact inCode checked
  · cases ok

-- The code units of a block are less than `2 ^ 16`, so its end is an address as well.
theorem start_lt_of_block {t : TryTable} {index : Nat} {b : TryBlock} (ok : t.block index = .ok b) :
    b.start.toNat < 2 ^ 31 := by
  rw [block_eq] at ok
  split at ok
  · obtain ⟨b', read, passed⟩ := bind_eq_ok_iff.mp ok
    obtain ⟨-, rfl⟩ := checkRange_eq_ok_iff.mp passed
    obtain ⟨_, -, read⟩ := bind_eq_ok_iff.mp read
    obtain ⟨start, small, read⟩ := bind_eq_ok_iff.mp read
    obtain ⟨unitCount, -, read⟩ := bind_eq_ok_iff.mp read
    obtain ⟨handlerOffset, -, read⟩ := bind_eq_ok_iff.mp read
    cases read
    exact Bytes.lt_of_smallAt small
  · cases ok

/-! ## 2. Lower limits -/

/-- The same table, to be read under other limits. -/
def under (limits : Limits) (t : TryTable) : TryTable := { t with limits }

section
variable {t : TryTable} {limits : Limits}

theorem checkRange_under (ranges : t.limits.validateTryRanges → limits.validateTryRanges) (index : Nat)
    (b : TryBlock) : CutsOff ((t.under limits).checkRange index b) (t.checkRange index b) := by
  rw [checkRange]
  split
  · exact .inr ⟨_, rfl⟩
  · next admitted =>
    refine .inl ?_
    rw [checkRange, if_neg fun refused => admitted ⟨ranges refused.1, refused.2⟩]

theorem block_under (ranges : t.limits.validateTryRanges → limits.validateTryRanges) (index : Nat) :
    CutsOff ((t.under limits).block index) (t.block index) := by
  rw [block_eq, block_eq, show (t.under limits).count = t.count from rfl]
  by_cases listed : index < t.count
  · rw [if_pos listed, if_pos listed]
    exact .bind (checkRange_under ranges index)
  · rw [if_neg listed, if_neg listed]
    exact .inl rfl

theorem readRecord_of_le {greater : Limits} (le : limits.maxHandlers ≤ greater.maxHandlers)
    (record : Nat) (c : Cursor) : readRecord limits record c = readRecord greater record c ∨
      ∃ what c', readRecord limits record c = .error (.malformed what) c' := by
  rw [readRecord, readRecord]
  cases read : Leb128.signed c with
  | error e c' => exact .inl (by rw [Reader.bind_of_error read, Reader.bind_of_error read])
  | ok size c' =>
    rw [Reader.bind_of_ok read, Reader.bind_of_ok read]
    dsimp only
    by_cases refused : limits.maxHandlers < size.toInt.natAbs
    · rw [if_pos refused]
      exact .inr ⟨_, c', rfl⟩
    · rw [if_neg refused, if_neg (Nat.not_lt.mpr (Nat.le_trans (Nat.not_lt.mp refused) le))]
      exact .inl rfl

theorem handlers_under (le : limits.maxHandlers ≤ t.limits.maxHandlers) (b : TryBlock) :
    CutsOff ((t.under limits).handlers b) (t.handlers b) := by
  rw [handlers, handlers]
  refine .bind fun c => ?_
  rw [show (t.under limits).limits = limits from rfl,
    show (t.under limits).recordOffset b = t.recordOffset b from rfl]
  rcases readRecord_of_le le (t.recordOffset b) c with same | ⟨what, c', refused⟩
  · rw [same]
    exact .inl rfl
  · rw [refused]
    exact .inr ⟨what, rfl⟩

end

/-! ## 3. Other images -/

open Bytes

theorem entryAt_of_sameOn {image image' : ByteArray} {offset : Nat}
    (same : SameOn image image' offset (offset + CodeHeader.tryItemSize)) :
    entryAt image' offset = entryAt image offset := by
  rw [CodeHeader.tryItemSize] at same
  have start := same.mono (i := offset) (j := offset + 4) (by omega) (by omega) (by omega)
  have unitCount := same.mono (i := offset + 4) (j := offset + 4 + 2) (by omega) (by omega) (by omega)
  have record := same.mono (i := offset + 6) (j := offset + 6 + 2) (by omega) (by omega) (by omega)
  rw [entryAt, entryAt, start.smallAt_eq, unitCount.u16At_eq, record.u16At_eq]

/-- A block is read from the bytes of its entry. -/
theorem block_of_sameOn_entry {t : TryTable} {image : ByteArray} {index : Nat}
    (same : SameOn t.image image (t.triesStart + CodeHeader.tryItemSize * index)
      (t.triesStart + CodeHeader.tryItemSize * index + CodeHeader.tryItemSize)) :
    ({ t with image } : TryTable).block index = t.block index := by
  rw [block_eq, block_eq]
  by_cases listed : index < t.count
  · rw [if_pos listed, if_pos listed, entryAt_of_sameOn same]
    rfl
  · rw [if_neg listed, if_neg listed]

-- So the entries of the start of a table are read from the bytes of this start.
theorem block_of_sameOn_start {t : TryTable} {image : ByteArray} {n index : Nat} (lt : index < n)
    (same : SameOn t.image image t.triesStart (t.triesStart + CodeHeader.tryItemSize * n)) :
    ({ t with image } : TryTable).block index = t.block index := by
  refine block_of_sameOn_entry ?_
  rw [CodeHeader.tryItemSize] at same ⊢
  exact same.mono (by omega) (by omega) (by omega)

section
variable {t : TryTable} {image : ByteArray}
  (same : SameOn t.image image t.triesStart (t.triesStart + CodeHeader.tryItemSize * t.count))
include same

/-- A block is read from the bytes of the table. -/
theorem block_of_sameOn (index : Nat) :
    ({ t with image } : TryTable).block index = t.block index := by
  by_cases listed : index < t.count
  · exact block_of_sameOn_start listed same
  · rw [block_eq, block_eq, if_neg listed, if_neg listed]

theorem blockAt_of_sameOn (address : UInt32) :
    ({ t with image } : TryTable).blockAt address = t.blockAt address := by
  have blocks_eq : ({ t with image } : TryTable).blocks = t.blocks :=
    List.map_congr_left fun index _ => block_of_sameOn same index
  rw [blockAt, blockAt, blocks_eq]

end

end TryTable

end DalvikCode
