import DalvikCode.Proofs.Debug.Traversal

/-!
# What a debug program means

A program reports one item for each of its operations that emits one.  Addresses and lines are sums
of the moves before it, modulo the width of their registers, whatever lies between the operations.
-/

namespace DalvikCode

/-! ## 1. Operations -/

namespace DebugOp

def emits : DebugOp → Bool
  | endSequence | advancePc _ | advanceLine _ => false
  | _ => true

/-- How far an operation moves the address. -/
def addressDelta : DebugOp → Nat
  | advancePc delta => delta.toNat
  | special step => step.val / 15
  | _ => 0

/-- How far an operation moves the line. -/
def lineDelta : DebugOp → Int
  | advanceLine delta => delta.toInt
  | special step => (step.val % 15 : Nat) - 4
  | _ => 0

/-- How far some operations move the address together. -/
def totalAddressDelta : List DebugOp → Nat
  | [] => 0
  | op :: ops => op.addressDelta + totalAddressDelta ops

/-- How far some operations move the line together. -/
def totalLineDelta : List DebugOp → Int
  | [] => 0
  | op :: ops => op.lineDelta + totalLineDelta ops

/-- The event is what an operation reports on a given line.  Names, types and signatures are what
the context has at their indices; which variable ends or is restarted depends on the operations
before. -/
def Reports (context : MethodContext) (line : Int32) : DebugOp → DebugEvent → Prop
  | startLocal register name? type?, event => event = .startLocal register
      { name? := name?.bind context.string?, descriptor? := type?.bind context.typeDescriptor? }
  | startLocalExtended register name? type? signature?, event => event = .startLocal register
      { name? := name?.bind context.string?, descriptor? := type?.bind context.typeDescriptor?
        signature? := signature?.bind context.string? }
  | endLocal register, event => ∃ info, event = .endLocal register info
  | restartLocal register, event => ∃ info, event = .restartLocal register info
  | prologueEnd, event => event = .prologueEnd
  | epilogueBegin, event => event = .epilogueBegin
  | setFile name?, event => event = .setSourceFile (name?.bind context.string?)
  | special _, event => event = .lineNumber line
  | endSequence, _ | advancePc _, _ | advanceLine _, _ => False

end DebugOp

namespace DebugInfo

open DebugOp Leb128

section
variable (context : MethodContext) (m : Machine) (op : DebugOp)

theorem address_pass :
    (m.pass context op).2.address = m.address + UInt32.ofNat op.addressDelta := by
  cases op with
  | advancePc delta => exact congrArg (m.address + ·) UInt32.ofNat_toNat.symm
  | special step => rfl
  | _ => exact (UInt32.add_zero m.address).symm

theorem line_pass : (m.pass context op).2.line = m.line + Int32.ofInt op.lineDelta := by
  cases op with
  | advanceLine delta => exact congrArg (m.line + ·) delta.ofInt_toInt.symm
  | special step => rfl
  | _ => exact (Int32.add_zero m.line).symm

theorem isSome_pass : (m.pass context op).1.isSome = op.emits := by
  cases op <;> rfl

theorem emitted_pass :
    (m.pass context op).2.emitted = m.emitted + if op.emits then 1 else 0 := by
  cases op <;> rfl

theorem item_pass {item : DebugItem} (h : (m.pass context op).1 = some item) :
    item.address = (m.pass context op).2.address ∧
      op.Reports context (m.pass context op).2.line item.event := by
  cases op with
  | endSequence | advancePc | advanceLine => cases h
  | endLocal register | restartLocal register => cases h; exact ⟨rfl, _, rfl⟩
  | _ => cases h; exact ⟨rfl, rfl⟩

end

/-- What a machine reports while it carries out some operations. -/
def Machine.reports (context : MethodContext) (m : Machine) : List DebugOp → List DebugItem
  | [] => []
  | op :: ops => (m.pass context op).1.toList ++ (m.pass context op).2.reports context ops

/-! ## 2. Programs -/

section
variable (context : MethodContext) (m : Machine)

theorem length_item_pass (op : DebugOp) :
    (m.pass context op).1.toList.length = if op.emits then 1 else 0 := by
  rw [Option.length_toList, isSome_pass]

theorem length_reports (ops : List DebugOp) :
    (m.reports context ops).length = ops.countP emits := by
  induction ops generalizing m with
  | nil => rfl
  | cons op ops ih =>
    rw [Machine.reports, List.length_append, ih, length_item_pass, List.countP_cons, Nat.add_comm]

-- Address and line of a report are those that the machine started with, moved by all that has been
-- carried out, the reporting operation included.
theorem reports_spec (ops : List DebugOp) (i : Nat) (lt : i < ops.length)
    (emitting : ops[i].emits) :
    ∃ item, (m.reports context ops)[(ops.take i).countP emits]? = some item ∧
      item.address = m.address + UInt32.ofNat (totalAddressDelta (ops.take (i + 1))) ∧
      ops[i].Reports context (m.line + Int32.ofInt (totalLineDelta (ops.take (i + 1))))
        item.event := by
  induction ops generalizing m i with
  | nil => cases lt
  | cons op ops ih =>
    cases i with
    | zero =>
      have some : (m.pass context op).1.isSome := (isSome_pass context m op).trans emitting
      obtain ⟨item, passes⟩ := Option.isSome_iff_exists.mp some
      obtain ⟨address, reports⟩ := item_pass context m op passes
      refine ⟨item, by rw [Machine.reports, passes]; rfl, ?_, ?_⟩
      · rw [address, address_pass]
        rfl
      · rw [line_pass] at reports
        rw [List.take_succ_cons, List.take_zero, totalLineDelta, totalLineDelta, Int.add_zero]
        exact reports
    | succ i =>
      obtain ⟨item, found, address, reports⟩ :=
        ih (m.pass context op).2 i (Nat.lt_of_succ_lt_succ lt) emitting
      refine ⟨item, ?_, ?_, ?_⟩
      · rw [List.take_succ_cons, List.countP_cons, Machine.reports, ← length_item_pass context m op,
          List.getElem?_append_right (Nat.le_add_left _ _), Nat.add_sub_cancel]
        exact found
      · rw [address, address_pass, List.take_succ_cons, totalAddressDelta,
          UInt32.ofNat_add, UInt32.add_assoc]
      · rw [line_pass, Int32.add_assoc, ← Int32.ofInt_add] at reports
        rw [List.take_succ_cons, totalLineDelta]
        exact reports

end

-- A program is carried out up to its end marker.
theorem yields_reports {d : DebugInfo} {ops : List DebugOp} {bs : List UInt8}
    (row : Row DebugOp.Encodes ops bs) (running : ∀ op ∈ ops, op ≠ .endSequence)
    (m : Machine) (c : Cursor) (sees : c.Sees (bs ++ [0x00]))
    (room : m.emitted + ops.countP emits ≤ d.limits.maxDebugItems) :
    Traversal.Yields (.before d m c) ((m.reports d.context ops).map .ok) (.closed d) := by
  induction row generalizing m c with
  | nil =>
    have reads : Reads DebugOp.read .endSequence [0x00] := DebugOp.parses_read.reads ⟨[], rfl, rfl⟩
    have done : d.step m c = .ok none _ := step_eq_ok_iff.mpr ⟨_, reads.whole c sees, rfl⟩
    exact .ended (by rw [Traversal.next_before sees.pos_le, done]) (Traversal.next_closed d)
  | @cons op ops bs rest first behind ih =>
    rw [List.append_assoc, Cursor.sees_append] at sees
    obtain ⟨sees, sees_rest⟩ := sees
    have read := (DebugOp.parses_read.reads first).whole c sees
    have operation := running op List.mem_cons_self
    have emitting := isSome_pass d.context m op
    have emitted := emitted_pass d.context m op
    have rest := ih (fun op mem => running op (List.mem_cons_of_mem _ mem))
      (m.pass d.context op).2 (c.advance bs.length) sees_rest
      (by rw [emitted]; rw [List.countP_cons] at room; omega)
    rw [List.countP_cons] at room
    rw [Machine.reports]
    rcases passes : m.pass d.context op with ⟨_ | item, m'⟩
    · rw [passes] at rest
      have done : d.step m c = .ok (some (none, m')) _ :=
        step_eq_ok_iff.mpr ⟨op, read, operation, passes, nofun⟩
      exact .of_next_eq (by rw [Traversal.next_before sees.pos_le, done]) rest
    · rw [passes] at rest emitting
      have emits : op.emits = true := emitting.symm
      rw [if_pos emits] at room
      have done : d.step m c = .ok (some (some item, m')) _ :=
        step_eq_ok_iff.mpr ⟨op, read, operation, passes, fun _ => by omega⟩
      exact .next (by rw [Traversal.next_before sees.pos_le, done]) rest

theorem toInt32_eq (n : UInt32) : n.toInt32 = Int32.ofInt n.toNat := by
  calc n.toInt32 = (UInt32.ofNat n.toNat).toInt32 := by rw [UInt32.ofNat_toNat]
    _ = Int32.ofInt n.toNat := by rw [UInt32.toInt32_ofNat', ← Int32.ofInt_eq_ofNat]

/-- The items of a program are the reports of its emitting operations, one for each in order, and
nothing follows them.  The header and the operations may be any whose numbers are in range, encoded
at any length; the program may stand anywhere behind the first byte; and the limits have to admit as
many items. -/
theorem traversal_yields_program {header : DebugHeader} {ops : List DebugOp}
    (running : ∀ op ∈ ops, op ≠ .endSequence) (pre post : ByteArray) (positive : 0 < pre.size)
    (small : pre.size < 2 ^ 32) (context : MethodContext) (registers : UInt16) (limits : Limits)
    (room : ops.countP emits ≤ limits.maxDebugItems) :
    ((∃ hs, header.Encodes hs) ↔ header.InRange) ∧
    ((∃ bs, Row DebugOp.Encodes ops bs) ↔ ∀ op ∈ ops, op.InRange) ∧
    ∀ hs bs, header.Encodes hs → Row DebugOp.Encodes ops bs →
      ∃ (items : List DebugItem) (done : Traversal),
        Traversal.Yields (resolve (pre ++ (hs ++ (bs ++ [0x00])).toByteArray ++ post)
          (UInt32.ofNat pre.size) context registers limits).traversal (items.map .ok) done ∧
        items.length = ops.countP emits ∧
        ∀ (i : Nat) (lt : i < ops.length), ops[i].emits → ∃ item,
          items[(ops.take i).countP emits]? = some item ∧
          item.address = UInt32.ofNat (totalAddressDelta (ops.take (i + 1))) ∧
          ops[i].Reports context
            (Int32.ofInt (header.lineStart.toNat + totalLineDelta (ops.take (i + 1))))
            item.event := by
  refine ⟨DebugHeader.exists_encodes_iff, exists_row_iff, fun hs bs header_encodes ops_encode => ?_⟩
  generalize resolved : resolve (pre ++ (hs ++ (bs ++ [0x00])).toByteArray ++ post)
    (UInt32.ofNat pre.size) context registers limits = d
  have offset : (UInt32.ofNat pre.size).toNat = pre.size := UInt32.toNat_ofNat_of_lt' small
  have nonzero : UInt32.ofNat pre.size ≠ 0 := by
    intro zero
    rw [zero] at offset
    exact absurd offset.symm (Nat.ne_of_gt positive)
  have present : d.offset? = some pre.size := by
    rw [← resolved, resolve, if_neg nonzero, offset]
  have sees := Cursor.sees_behind pre post (hs ++ (bs ++ [0x00]))
  obtain ⟨sees_header, sees_ops⟩ := Cursor.sees_append.mp sees
  have image : d.image = pre ++ (hs ++ (bs ++ [0x00])).toByteArray ++ post := by
    rw [← resolved, resolve]
  rw [← image] at sees_header sees_ops
  have read := readHeader_eq_ok_iff.mpr ⟨hs, header_encodes, sees_header, rfl⟩
  have limits_eq : d.limits = limits := by rw [← resolved, resolve]
  have context_eq : d.context = context := by rw [← resolved, resolve]
  have yields := yields_reports ops_encode running (.init d.context d.registers header) _ sees_ops
    (by rw [limits_eq]; exact Nat.le_trans (Nat.le_of_eq (Nat.zero_add _)) room)
  subst context_eq
  refine ⟨_, _, yields.of_next_eq (Traversal.next_traversal present read), length_reports _ _ ops,
    fun i lt emitting => ?_⟩
  obtain ⟨item, found, address, reports⟩ := reports_spec d.context
    (.init d.context d.registers header) ops i lt emitting
  refine ⟨item, found, address.trans (UInt32.zero_add _), ?_⟩
  rw [show (Machine.init d.context d.registers header).line = header.lineStart.toInt32 from rfl,
    toInt32_eq, ← Int32.ofInt_add] at reports
  exact reports

/-- The context of a method in a file with three strings and one type. -/
def threeStrings : MethodContext :=
  { MethodContext.unknown with
    string? := fun i => ["x", "Foo.java", "TT;"][i.toNat]?
    typeDescriptor? := fun i => ["Ljava/lang/Object;"][i.toNat]? }

-- A move of the address in more bytes than it needs, a move of the line back, and four reports.
-- One variable has a name and a type, the other one a type and a signature.
theorem traversal_yields_program_of_six_operations :
    ∃ (items : List DebugItem) (done : Traversal),
      Traversal.Yields (resolve (⟨#[0xee]⟩ ++ ([0x64, 0x00, 0x09, 0x02, 0x01, 0x83, 0x00, 0x02,
          0x76, 0x1d, 0x03, 0x00, 0x01, 0x01, 0x04, 0x01, 0x08, 0x01, 0x03, 0x00] :
          List UInt8).toByteArray ++ ⟨#[0xff]⟩) 1 threeStrings 2 .strict).traversal
        (items.map .ok) done ∧
      items.length = 4 ∧
      (∃ item, items[0]? = some item ∧ item.address = 0 ∧
        item.event = .setSourceFile (some "Foo.java")) ∧
      (∃ item, items[1]? = some item ∧ item.address = 4 ∧ item.event = .lineNumber 90) ∧
      (∃ item, items[2]? = some item ∧ item.address = 4 ∧ item.event = .startLocal 0
        { name? := some "x", descriptor? := some "Ljava/lang/Object;" }) ∧
      ∃ item, items[3]? = some item ∧ item.address = 4 ∧ item.event = .startLocal 1
        { name? := none, descriptor? := some "Ljava/lang/Object;", signature? := some "TT;" } := by
  have header : DebugHeader.Encodes ⟨100, #[]⟩ [0x64, 0x00] :=
    ⟨[0x64], [0x00], [], by decide, by decide, .nil, rfl⟩
  have file : (DebugOp.setFile (some 1)).Encodes [0x09, 0x02] :=
    ⟨_, (by decide : Index (some 1) [0x02]), rfl⟩
  have pc : (DebugOp.advancePc 3).Encodes [0x01, 0x83, 0x00] :=
    ⟨_, (by decide : Small 3 [0x83, 0x00]), rfl⟩
  have line : (DebugOp.advanceLine (-10)).Encodes [0x02, 0x76] :=
    ⟨_, ⟨-10, by decide, rfl⟩, rfl⟩
  have special : (DebugOp.special 19).Encodes [0x1d] := ⟨_, rfl, rfl⟩
  have named : (DebugOp.startLocal 0 (some 0) (some 0)).Encodes [0x03, 0x00, 0x01, 0x01] :=
    ⟨_, ⟨[0x00], [0x01], [0x01], by decide, by decide, by decide, rfl⟩, rfl⟩
  -- there is no string at index 7
  have unnamed : (DebugOp.startLocalExtended 1 (some 7) (some 0) (some 2)).Encodes
      [0x04, 0x01, 0x08, 0x01, 0x03] :=
    ⟨_, ⟨[0x01], [0x08], [0x01], [0x03], by decide, by decide, by decide, by decide, rfl⟩, rfl⟩
  obtain ⟨-, -, program⟩ := @traversal_yields_program ⟨100, #[]⟩
    [.setFile (some 1), .advancePc 3, .advanceLine (-10), .special 19,
      .startLocal 0 (some 0) (some 0), .startLocalExtended 1 (some 7) (some 0) (some 2)]
    (by decide) ⟨#[0xee]⟩ ⟨#[0xff]⟩ (by decide) (by decide) threeStrings 2 .strict (by decide)
  obtain ⟨items, done, yields, length, reports⟩ := program _ _ header
    (.cons file (.cons pc (.cons line (.cons special (.cons named (.cons unnamed .nil))))))
  exact ⟨items, done, yields, length, reports 0 (by decide) rfl, reports 3 (by decide) rfl,
    reports 4 (by decide) rfl, reports 5 (by decide) rfl⟩

end DebugInfo

end DalvikCode
