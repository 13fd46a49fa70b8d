import DalvikCode.Proofs.Method.TryTable
import DalvikCode.Proofs.Trapping.Header
import DalvikCode.Proofs.Trapping.Leb128

/-!
# Try blocks on machine words

The offset of an entry is checked up to its end, so the offsets of its fields are not.  Where a
block ends is not checked either: blocks that have been read start below `2 ^ 31`.
-/

namespace DalvikCode.Trapping

/-! ## 1. Blocks -/

/-- The offset of the entry with a given index, all bytes of which have offsets. -/
def blockOffset (t : TryTable) (index : Nat) : Except Fault Nat := do
  let relative ← checked (checkedMul index CodeHeader.tryItemSize)
  let offset ← checked (checkedAdd t.triesStart relative)
  let _ ← checked (checkedAdd offset CodeHeader.tryItemSize)
  return offset

/-- Whether a block lies inside the code of the method, where that is to be checked. -/
def passes (t : TryTable) (b : TryBlock) : Except Trap Bool :=
  if t.limits.validateTryRanges then do
    let stop ← add 64 b.start.toNat b.unitCount.toNat
    return stop ≤ t.codeSize.toNat
  else return true

def block (t : TryTable) (index : Nat) : Except Fault TryBlock := do
  unless index < t.count do throw (.failed (.noSuchTryBlock index t.count))
  let offset ← blockOffset t index
  let start ← smallAt t.image offset
  let unitCount ← u16At t.image (← add 64 offset 4)
  let handlerOffset ← u16At t.image (← add 64 offset 6)
  let b : TryBlock := { start, unitCount, handlerOffset }
  if ← passes t b then return b
  else throw (.failed (.malformed (.tryRangeOutsideCode index b.start b.unitCount t.codeSize)))

def stop (b : TryBlock) : Except Trap UInt32 := do
  return UInt32.ofNat (← add 32 b.start.toNat b.unitCount.toNat)

-- The address behind the block is only computed for an address that is not before the block.
def covers (b : TryBlock) (address : UInt32) : Except Trap Bool :=
  if b.start ≤ address then do return address < (← stop b) else return false

def firstCovering (t : TryTable) (address : UInt32) : List Nat → Except Fault (Option TryBlock)
  | [] => return none
  | index :: rest => do
    let b ← block t index
    if ← covers b address then return some b else firstCovering t address rest

def blockAt (t : TryTable) (address : UInt32) : Except Fault (Option TryBlock) :=
  firstCovering t address (List.range t.count)

-- If the end of an entry is a word, then so is what its offset is computed from.
theorem blockOffset_eq (t : TryTable) (index : Nat) :
    blockOffset t index = ofExcept ((fun _ => t.triesStart + CodeHeader.tryItemSize * index) <$>
      checkedOffset (t.triesStart + CodeHeader.tryItemSize * index + CodeHeader.tryItemSize)) := by
  rw [blockOffset, CodeHeader.tryItemSize]
  by_cases word : t.triesStart + 8 * index + 8 < 2 ^ 64
  · rw [checkedMul_of_lt (by omega)]
    show (checked (checkedAdd t.triesStart (index * 8)) >>= _) = _
    rw [checkedAdd, if_pos (by omega), Nat.mul_comm]
    show (checked (checkedAdd (t.triesStart + 8 * index) 8) >>= _) = _
    rw [checkedAdd, if_pos word, checkedOffset, if_pos word]
    rfl
  · -- each of the three checks may be the one that fails; all fail alike
    rw [checkedOffset, if_neg word, checkedMul]
    split
    · show (checked (checkedAdd t.triesStart (index * 8)) >>= _) = _
      rw [checkedAdd, Nat.mul_comm]
      split
      · show (checked (checkedAdd (t.triesStart + 8 * index) 8) >>= _) = _
        rw [checkedAdd, if_neg word]
        rfl
      · rfl
    · rfl

theorem passes_eq (t : TryTable) (b : TryBlock) :
    passes t b = .ok (decide ¬(t.limits.validateTryRanges = true ∧ ¬ t.InCode b)) := by
  -- 32 and 16 bits, added in 64
  have start_lt := b.start.toNat_lt
  have count_lt := b.unitCount.toNat_lt
  rw [passes]
  split
  · next validate =>
    rw [add_of_lt (by omega)]
    show Except.ok (decide (t.InCode b)) = _
    congr 1
    simp only [validate, true_and, Decidable.not_not]
  · next validate =>
    simp only [validate, Bool.false_eq_true, false_and, not_false_eq_true, decide_true]
    rfl

theorem block_eq {t : TryTable} (size_lt : t.image.size < 2 ^ 63) (index : Nat) :
    block t index = ofExcept (t.block index) := by
  rw [block, TryTable.block]
  by_cases listed : index < t.count
  · rw [if_pos listed, if_pos listed]
    show (blockOffset t index >>= _) = _
    rw [blockOffset_eq]
    show _ = ofExcept (checkedOffset _ >>= _)
    rw [CodeHeader.tryItemSize, checkedOffset]
    by_cases word : t.triesStart + 8 * index + 8 < 2 ^ 64
    · have field : ∀ k ≤ 8, add 64 (t.triesStart + 8 * index) k =
          .ok (t.triesStart + 8 * index + k) := by
        intro k le
        exact add_of_lt (by omega)
      rw [if_pos word]
      show (smallAt t.image (t.triesStart + 8 * index) >>= _) = ofExcept (Bytes.smallAt _ _ >>= _)
      refine bind_of_eq (smallAt_eq size_lt _) fun start _ => ?_
      refine bind_operation (field 4 (by decide)) ?_
      refine bind_of_eq (u16At_eq size_lt _) fun unitCount _ => ?_
      refine bind_operation (field 6 (by decide)) ?_
      refine bind_of_eq (u16At_eq size_lt _) fun handlerOffset _ => ?_
      refine bind_operation (passes_eq t _) ?_
      by_cases outside : t.limits.validateTryRanges = true ∧
          ¬ t.InCode { start, unitCount, handlerOffset }
      · rw [decide_eq_false (not_not_intro outside), if_pos outside]
        rfl
      · rw [decide_eq_true outside, if_neg outside]
        rfl
    · rw [if_neg word]
      rfl
  · rw [if_neg listed, if_neg listed]
    rfl

section
variable {b : TryBlock} (start_lt : b.start.toNat < 2 ^ 31)
include start_lt

theorem stop_eq : stop b = .ok b.stop := by
  -- 31 and 16 bits, added in 32
  have count_lt := b.unitCount.toNat_lt
  have fits : b.start.toNat + b.unitCount.toNat < 2 ^ 32 := by omega
  rw [stop, add_of_lt fits]
  rfl

theorem covers_eq (address : UInt32) : covers b address = .ok (b.covers address) := by
  rw [covers, TryBlock.covers]
  split
  · next le =>
    rw [stop_eq start_lt, decide_eq_true le, Bool.true_and]
    rfl
  · next lt =>
    rw [decide_eq_false lt, Bool.false_and]
    rfl

end

theorem firstCovering_eq {t : TryTable} (size_lt : t.image.size < 2 ^ 63) (address : UInt32)
    (indices : List Nat) : firstCovering t address indices =
      ofExcept (TryTable.firstCovering address (indices.map t.block)) := by
  induction indices with
  | nil => rfl
  | cons index rest ih =>
    rw [firstCovering, block_eq size_lt, List.map_cons]
    cases read : t.block index with
    | error e => rfl
    | ok b =>
      refine bind_operation (covers_eq (TryTable.start_lt_of_block read) address) ?_
      rw [TryTable.firstCovering, ih]
      split <;> rfl

theorem blockAt_eq {t : TryTable} (size_lt : t.image.size < 2 ^ 63) (address : UInt32) :
    blockAt t address = ofExcept (t.blockAt address) :=
  firstCovering_eq size_lt address (List.range t.count)

/-! ## 2. Handlers -/

def readTyped : Execution ExceptionHandler := do
  let type ← small
  return ⟨some type, ← small⟩

def readCatchAll : Execution ExceptionHandler := return ⟨none, ← small⟩

-- Room is reserved for no more than sixteen typed handlers and a catch-all, of twelve bytes each.
def readRecord (limits : Limits) (record : Nat) : Execution (Array ExceptionHandler) := do
  let size := (← signed).toInt
  if limits.maxHandlers < size.natAbs then
    throw (.failed (.malformed (.tooManyHandlers record size.natAbs)))
  let capacity ← add 64 (min size.natAbs 16) 1
  reserve capacity 12
  let typed ← timesOnto readTyped size.natAbs #[]
  if size ≤ 0 then return typed.push (← readCatchAll) else return typed

def handlers (t : TryTable) (b : TryBlock) : Except Fault (Array ExceptionHandler) :=
  Prod.fst <$> started (readRecord t.limits (t.recordOffset b)) t.image (t.recordOffset b)

def catchAll? (t : TryTable) (b : TryBlock) : Except Fault (Option UInt32) := do
  return ((← handlers t b).back?.filter (·.isCatchAll)).map (·.address)

theorem agrees_readTyped {low : Nat} : Agrees low readTyped TryTable.readTyped :=
  agrees_small.bind fun _ => agrees_small.bind fun _ => .pure _

theorem agrees_readCatchAll {low : Nat} : Agrees low readCatchAll TryTable.readCatchAll :=
  agrees_small.bind fun _ => .pure _

theorem agrees_readRecord {low : Nat} (limits : Limits) (record : Nat) :
    Agrees low (readRecord limits record) (TryTable.readRecord limits record) := by
  refine agrees_signed.bind fun size => ?_
  have capacity_le : min size.toInt.natAbs 16 + 1 ≤ 17 := by omega
  -- the room does not depend on the declared size beyond sixteen, whatever the limits admit
  refine .ite _ (.bind (.throw _) fun _ => ?_) ?_
  all_goals
    refine .operation (add_of_lt (Nat.lt_of_le_of_lt capacity_le (by decide))) ?_
    refine .operation (reserve_of_lt (by omega)) ?_
    refine .bind (agrees_readTyped.timesOnto _ _) fun typed => ?_
    exact .ite _ (agrees_readCatchAll.bind fun _ => .pure _) (.pure _)

theorem handlers_eq {t : TryTable} (size_lt : t.image.size < 2 ^ 63) (b : TryBlock) :
    handlers t b = ofExcept (t.handlers b) := by
  rw [handlers, started_eq (agrees_readRecord t.limits _) size_lt, TryTable.handlers, Cursor.at?]
  split
  · rw [ok_bind]
    cases TryTable.readRecord t.limits (t.recordOffset b) ⟨t.image, t.recordOffset b⟩ <;> rfl
  · rfl

theorem catchAll?_eq {t : TryTable} (size_lt : t.image.size < 2 ^ 63) (b : TryBlock) :
    catchAll? t b = ofExcept (t.catchAll? b) :=
  bind_of_eq (handlers_eq size_lt b) fun _ _ => rfl

/-- Whatever a caller asks of a table and of the blocks that it has read, the answer is that of the
table; nothing traps. -/
structure TableAgrees (t : TryTable) : Prop where
  block : ∀ index, Trapping.block t index = ofExcept (t.block index)
  stop : ∀ index b, Trapping.block t index = .ok b → Trapping.stop b = .ok b.stop
  covers : ∀ index b, Trapping.block t index = .ok b →
    ∀ address, Trapping.covers b address = .ok (b.covers address)
  blockAt : ∀ address, Trapping.blockAt t address = ofExcept (t.blockAt address)
  handlers : ∀ b, Trapping.handlers t b = ofExcept (t.handlers b)
  catchAll? : ∀ b, Trapping.catchAll? t b = ofExcept (t.catchAll? b)

theorem tableAgrees {t : TryTable} (size_lt : t.image.size < 2 ^ 63) : TableAgrees t := by
  have start_lt : ∀ index b, block t index = .ok b → b.start.toNat < 2 ^ 31 := by
    intro index b read
    rw [block_eq size_lt, ofExcept_eq_ok] at read
    exact TryTable.start_lt_of_block read
  exact {
    block := block_eq size_lt
    stop := fun index b read => stop_eq (start_lt index b read)
    covers := fun index b read => covers_eq (start_lt index b read)
    blockAt := blockAt_eq size_lt
    handlers := handlers_eq size_lt
    catchAll? := catchAll?_eq size_lt }

end DalvikCode.Trapping
