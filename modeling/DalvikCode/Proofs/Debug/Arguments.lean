import DalvikCode.Proofs.Debug.Locals
import DalvikCode.Proofs.Debug.Traversal

/-!
# Parameters and the frame on entry

A header is read twice: for the names of the parameters, and for the frame in which a debug program
begins.  Both give every parameter the same name, and the frame holds them in its last registers.
-/

namespace DalvikCode

/-! ## 1. Parameters -/

/-- The variable that a parameter is on entry. -/
def Parameter.toLocal (p : Parameter) : LocalInfo :=
  { name? := p.name?, descriptor? := some p.descriptor }

-- A bit of a word is clear or set.
theorem and_static (bits : UInt32) : bits &&& 0x0008 = 0 ∨ bits &&& 0x0008 = 0x0008 := by
  rw [← UInt32.toBitVec_inj, ← UInt32.toBitVec_inj, UInt32.toBitVec_and]
  change _ &&& BitVec.twoPow 32 3 = _ ∨ _ &&& BitVec.twoPow 32 3 = BitVec.twoPow 32 3
  rw [BitVec.and_twoPow]
  split
  · exact .inr rfl
  · exact .inl rfl

namespace MethodContext

/-- The bit of static methods is clear in the flags of the method. -/
def NonStatic (context : MethodContext) : Prop := context.flags.bits &&& 0x0008 = 0

instance (context : MethodContext) : Decidable context.NonStatic :=
  inferInstanceAs (Decidable (_ = _))

theorem hasReceiver_iff {context : MethodContext} : context.hasReceiver ↔ context.NonStatic := by
  unfold hasReceiver AccessFlags.contains AccessFlags.inter AccessFlags.static NonStatic
  rw [Bool.not_eq_true', beq_eq_false_iff_ne, ne_eq, AccessFlags.mk.injEq]
  rcases and_static context.flags.bits with eq | eq
  · simp [eq]
  · simp [eq]

/-- The receiver of a method, if it has one. -/
def receiver (context : MethodContext) : List LocalInfo :=
  if context.NonStatic then
    [{ name? := some "this", descriptor? := some context.definingClass }]
  else []

theorem receiver_eq (context : MethodContext) : context.receiver =
    if context.hasReceiver then
      [{ name? := some "this", descriptor? := some context.definingClass }]
    else [] := by
  simp only [receiver, hasReceiver_iff]

/-- The number of registers that the receiver takes, if it is of a reference type. -/
def receiverWidth (context : MethodContext) : Nat := if context.NonStatic then 1 else 0

theorem length_receiver (context : MethodContext) :
    context.receiver.length = context.receiverWidth := by
  unfold receiver receiverWidth
  split <;> simp

theorem totalWidth_receiver {context : MethodContext}
    (narrow : context.definingClass ≠ "J" ∧ context.definingClass ≠ "D") :
    LocalTable.totalWidth context.receiver = context.receiverWidth := by
  unfold receiver receiverWidth
  split
  · simp [LocalTable.totalWidth, LocalInfo.width, registerWidth, narrow]
  · simp [LocalTable.totalWidth]

end MethodContext

/-- The parameters of a method with the names that a header gives them.  A parameter has no name if
the header lists none, or one that cannot be resolved. -/
def DebugHeader.parameters (header : DebugHeader) (context : MethodContext) : List Parameter :=
  context.parameterTypes.mapIdx fun i descriptor =>
    ⟨descriptor, (header.parameterNames[i]?).join.bind context.string?⟩

/-! ## 2. The frame on entry -/

/-- The number of registers that some parameters take together. -/
def Parameter.totalWidth : List Parameter → Nat
  | [] => 0
  | p :: ps => p.width + totalWidth ps

/-- The number of registers that the receiver and some parameters take. -/
def registersTaken (context : MethodContext) (ps : List Parameter) : Nat :=
  Parameter.totalWidth ps + context.receiverWidth

/-- The first register of the `i`-th parameter, in a frame that can hold all of them. -/
def parameterRegister (registers : Nat) (context : MethodContext) (ps : List Parameter)
    (i : Nat) : Nat :=
  registers - registersTaken context ps + context.receiverWidth + Parameter.totalWidth (ps.take i)

/-- The frame holds the receiver and the parameters in its last registers, each in the first one of
those it takes.  All other registers are empty, and so is a frame that is too small. -/
structure HoldsArguments (t : LocalTable) (registers : Nat) (context : MethodContext)
    (ps : List Parameter) : Prop where
  size : t.size = registers
  receiver : registersTaken context ps ≤ registers → context.NonStatic →
    t[registers - registersTaken context ps]? =
      some ⟨{ name? := some "this", descriptor? := some context.definingClass }, true⟩
  parameter : registersTaken context ps ≤ registers → ∀ i p, ps[i]? = some p →
    t[parameterRegister registers context ps i]? =
      some ⟨{ name? := p.name?, descriptor? := some p.descriptor }, true⟩
  secondHalf : registersTaken context ps ≤ registers → ∀ i p, ps[i]? = some p → p.width = 2 →
    t[parameterRegister registers context ps i + 1]? = some ⟨.unknown, true⟩
  elsewhere : registersTaken context ps ≤ registers → ∀ register < registers,
    (context.NonStatic → register ≠ registers - registersTaken context ps) →
    (∀ i < ps.length, register ≠ parameterRegister registers context ps i) →
    t[register]? = some ⟨.unknown, true⟩
  tooSmall : registers < registersTaken context ps → ∀ register < registers,
    t[register]? = some ⟨.unknown, true⟩

namespace LocalTable

theorem totalWidth_toLocal (ps : List Parameter) :
    totalWidth (ps.map Parameter.toLocal) = Parameter.totalWidth ps := by
  induction ps with
  | nil => rfl
  | cons p ps ih =>
    simp only [List.map_cons, totalWidth, Parameter.totalWidth, ih]
    rfl

section
variable {context : MethodContext}
  (narrow : context.definingClass ≠ "J" ∧ context.definingClass ≠ "D")
  (registers : Nat) (ps : List Parameter)
include narrow

theorem totalWidth_arguments :
    totalWidth (context.receiver ++ ps.map Parameter.toLocal) = registersTaken context ps := by
  rw [totalWidth_append, totalWidth_toLocal, MethodContext.totalWidth_receiver narrow]
  unfold registersTaken
  omega

theorem registerOf_parameter (i : Nat) :
    registerOf registers (context.receiver ++ ps.map Parameter.toLocal)
      (context.receiverWidth + i) = parameterRegister registers context ps i := by
  unfold registerOf parameterRegister
  rw [totalWidth_arguments narrow, ← context.length_receiver, List.take_length_add_append,
    totalWidth_append, MethodContext.totalWidth_receiver narrow, ← List.map_take,
    totalWidth_toLocal, context.length_receiver]
  omega

theorem holdsArguments_entry :
    HoldsArguments (entry registers (context.receiver ++ ps.map Parameter.toLocal)) registers
      context ps := by
  have taken := totalWidth_arguments narrow ps
  have position := registerOf_parameter narrow registers ps
  have found {i : Nat} {p : Parameter} (h : ps[i]? = some p) :
      (context.receiver ++ ps.map Parameter.toLocal)[context.receiverWidth + i]? =
        some p.toLocal := by
    rw [← context.length_receiver, List.getElem?_append_right (by omega)]
    simp [h]
  constructor
  case size => simp
  case receiver =>
    intro fits present
    have first : (context.receiver ++ ps.map Parameter.toLocal)[0]? =
        some { name? := some "this", descriptor? := some context.definingClass } := by
      simp [MethodContext.receiver, present]
    have held := getElem?_entry_registerOf (taken.symm ▸ fits) first
    unfold registerOf at held
    rw [taken] at held
    simpa [totalWidth] using held
  case parameter =>
    intro fits i p h
    have held := getElem?_entry_registerOf (taken.symm ▸ fits) (found h)
    rw [position] at held
    exact held
  case secondHalf =>
    intro fits i p h wide
    have width : p.toLocal.width = 2 := wide
    have within := registerOf_add_width_le_registers (taken.symm ▸ fits) (found h)
    have empty : argumentIn registers (context.receiver ++ ps.map Parameter.toLocal)
        (parameterRegister registers context ps i + 1) = .unknown := by
      apply argumentIn_behind (found h) <;> rw [position] <;> omega
    rw [position] at within
    rw [getElem?_entry, if_pos (by omega), empty]
  case elsewhere =>
    intro fits register inside apart_receiver apart
    rw [getElem?_entry, if_pos inside, argumentIn_of_apart]
    intro j lt at_register
    rw [List.length_append, context.length_receiver, List.length_map] at lt
    -- an argument is a parameter behind the receiver, or the receiver itself
    by_cases behind : context.receiverWidth ≤ j
    · obtain ⟨i, rfl⟩ := Nat.exists_eq_add_of_le behind
      exact apart i (by omega) (at_register.trans (position i))
    · unfold MethodContext.receiverWidth at behind
      split at behind
      · next present =>
        obtain rfl : j = 0 := by omega
        apply apart_receiver present
        unfold registerOf at at_register
        rw [at_register, taken]
        simp [totalWidth]
      · omega
  case tooSmall =>
    intro small register inside
    unfold entry
    rw [taken, if_neg (by omega)]
    simp [unknown, inside]

end

end LocalTable

namespace DebugInfo

/-! ## 3. Two reads of one header -/

-- The names that the list of parameters takes are those that the frame takes.
theorem arguments_eq (context : MethodContext) (header : DebugHeader) :
    arguments context header =
      context.receiver ++ (header.parameters context).map Parameter.toLocal := by
  simp only [arguments, ← MethodContext.receiver_eq, DebugHeader.parameters]
  apply congrArg (context.receiver ++ ·)
  apply List.ext_getElem?
  intro i
  simp [Parameter.toLocal, Function.comp_def, MethodContext.resolveString?]

section
variable {d : DebugInfo} {offset : Nat} (present : d.offset? = some offset)
include present

theorem parameterNames_of_unreadable {e : DecodeError} :
    d.parameterNames = .error e ↔ d.readHeader offset = .error e := by
  unfold parameterNames
  simp only [present]
  cases d.readHeader offset with
  | ok result => exact iff_of_false nofun nofun
  | error found => constructor <;> (intro failed; cases failed; rfl)

theorem parameterNames_of_readable {header : DebugHeader} {c : Cursor}
    (read : d.readHeader offset = .ok (header, c)) :
    d.parameterNames = .ok (header.parameterNames.toList.map d.context.resolveString?) := by
  unfold parameterNames
  simp only [present, read]
  rfl

theorem parameters_of_readable {header : DebugHeader} {c : Cursor}
    (read : d.readHeader offset = .ok (header, c)) :
    d.parameters = .ok (header.parameters d.context) := by
  unfold parameters
  rw [parameterNames_of_readable present read, ok_bind]
  apply congrArg Except.ok
  unfold DebugHeader.parameters
  apply List.mapIdx_eq_mapIdx_iff.mpr
  intro i _
  rw [List.getElem?_map, Array.getElem?_toList]
  cases header.parameterNames[i]? <;> rfl

end

-- A header is readable if its bytes are there.
theorem exists_error_iff {d : DebugInfo} {offset : Nat} :
    (∃ e, d.readHeader offset = .error e) ↔ ¬ ∃ (header : DebugHeader) (bs : List UInt8),
      header.Encodes bs ∧ (⟨d.image, offset⟩ : Cursor).Sees bs := by
  cases read : d.readHeader offset with
  | ok result =>
    obtain ⟨bs, encodes, sees, -⟩ := readHeader_eq_ok_iff.mp read
    refine iff_of_false (by simp) fun missing => missing ⟨result.1, bs, encodes, sees⟩
  | error e =>
    refine iff_of_true ⟨e, rfl⟩ ?_
    rintro ⟨header, bs, encodes, sees⟩
    rw [readHeader_eq_ok_iff.mpr ⟨bs, encodes, sees, rfl⟩] at read
    cases read

/-- The names of the parameters fail exactly if the bytes at the offset begin with no header, and
the failure is then all that the debug items yield.  Else every parameter is listed with the name
that the header gives it, and the frame on entry holds the parameters as they are listed. -/
theorem arguments_agree {d : DebugInfo} {offset : Nat} (present : d.offset? = some offset)
    (narrow : d.context.definingClass ≠ "J" ∧ d.context.definingClass ≠ "D") :
    let here : Cursor := ⟨d.image, offset⟩
    (∀ e, d.parameterNames = .error e ↔ d.readHeader offset = .error e) ∧
    ((∃ e, d.parameterNames = .error e) ↔ ¬ ∃ (header : DebugHeader) (bs : List UInt8),
      header.Encodes bs ∧ here.Sees bs) ∧
    (∀ e, d.parameterNames = .error e →
      Traversal.Yields d.traversal [.error e] (.closed d)) ∧
    ∀ (header : DebugHeader) (bs : List UInt8), header.Encodes bs → here.Sees bs →
      ∃ (ps : List Parameter) (m : Machine) (c : Cursor), d.parameters = .ok ps ∧
        d.load offset = .ok (m, c) ∧
        ps.length = d.context.parameterTypes.length ∧
        (∀ (i : Nat) (descriptor : String), d.context.parameterTypes[i]? = some descriptor →
          ps[i]? = some ⟨descriptor, (header.parameterNames[i]?).join.bind d.context.string?⟩) ∧
        HoldsArguments m.locals d.registers.toNat d.context ps := by
  intro here
  refine ⟨fun e => parameterNames_of_unreadable present, ?_, ?_, ?_⟩
  · simp only [parameterNames_of_unreadable present]
    exact exists_error_iff
  · intro e failed
    have unreadable := (parameterNames_of_unreadable present).mp failed
    apply Traversal.Yields.next (Traversal.next_traversal_of_unreadable present unreadable)
    exact .ended (Traversal.next_closed d) (Traversal.next_closed d)
  · intro header bs encodes sees
    have read := readHeader_eq_ok_iff.mpr ⟨bs, encodes, sees, rfl⟩
    have loaded := load_eq_ok_iff.mpr ⟨header, read, rfl⟩
    refine ⟨_, _, _, parameters_of_readable present read, loaded, ?_, ?_, ?_⟩
    · simp [DebugHeader.parameters]
    · intro i descriptor found
      simp [DebugHeader.parameters, found]
    · unfold Machine.init
      rw [arguments_eq]
      exact LocalTable.holdsArguments_entry narrow _ _

/-- Debug information of a method `foo(long, int, int)`.  The header names the first parameter,
leaves out the second, and ends before the third. -/
def threeParameters (flags : AccessFlags) : DebugInfo where
  image := ⟨#[0xee, 0x01, 0x02, 0x01, 0x00, 0x00]⟩
  offset? := some 1
  context :=
    { flags
      definingClass := "LFoo;"
      parameterTypes := ["J", "I", "I"]
      string? := fun i => if i = 0 then some "a" else none
      typeDescriptor? := fun _ => none }
  registers := 6
  limits := .strict

-- The frame of a public method, and that of a public static one.
theorem arguments_agree_of_threeParameters :
    (let d := threeParameters ⟨0x0001⟩;
      d.offset? = some 1 ∧ (d.context.definingClass ≠ "J" ∧ d.context.definingClass ≠ "D") ∧
      ∃ m c, d.parameters = .ok [⟨"J", some "a"⟩, ⟨"I", none⟩, ⟨"I", none⟩] ∧
        d.load 1 = .ok (m, c) ∧ m.locals[0]? = some ⟨.unknown, true⟩ ∧
        m.locals[1]? = some ⟨{ name? := some "this", descriptor? := some "LFoo;" }, true⟩ ∧
        m.locals[2]? = some ⟨{ name? := some "a", descriptor? := some "J" }, true⟩ ∧
        m.locals[3]? = some ⟨.unknown, true⟩ ∧
        m.locals[4]? = some ⟨{ name? := none, descriptor? := some "I" }, true⟩) ∧
    let d := threeParameters ⟨0x0009⟩;
    d.offset? = some 1 ∧ (d.context.definingClass ≠ "J" ∧ d.context.definingClass ≠ "D") ∧
    ∃ m c, d.parameters = .ok [⟨"J", some "a"⟩, ⟨"I", none⟩, ⟨"I", none⟩] ∧
      d.load 1 = .ok (m, c) ∧ m.locals[0]? = some ⟨.unknown, true⟩ ∧
      m.locals[1]? = some ⟨.unknown, true⟩ ∧
      m.locals[2]? = some ⟨{ name? := some "a", descriptor? := some "J" }, true⟩ ∧
      m.locals[3]? = some ⟨.unknown, true⟩ ∧
      m.locals[4]? = some ⟨{ name? := none, descriptor? := some "I" }, true⟩ := by
  have named : Leb128.Index (some 0) [0x01] := by decide
  have unnamed : Leb128.Index none [0x00] := by decide
  have encodes : DebugHeader.Encodes ⟨1, #[some 0, none]⟩ [0x01, 0x02, 0x01, 0x00] :=
    ⟨[0x01], [0x02], _, by decide, by decide, .cons named (.cons unnamed .nil), rfl⟩
  have narrow : "LFoo;" ≠ "J" ∧ "LFoo;" ≠ "D" := by decide
  have frame (flags : AccessFlags) : ∃ m c,
      (threeParameters flags).parameters = .ok [⟨"J", some "a"⟩, ⟨"I", none⟩, ⟨"I", none⟩] ∧
      (threeParameters flags).load 1 = .ok (m, c) ∧
      HoldsArguments m.locals 6 (threeParameters flags).context
        [⟨"J", some "a"⟩, ⟨"I", none⟩, ⟨"I", none⟩] := by
    have present : (threeParameters flags).offset? = some 1 := rfl
    have sees : (⟨(threeParameters flags).image, 1⟩ : Cursor).Sees [0x01, 0x02, 0x01, 0x00] :=
      ⟨(by decide : 1 ≤ 6), [0x00], rfl⟩
    obtain ⟨-, -, -, agree⟩ := arguments_agree present narrow
    obtain ⟨ps, m, c, listed, loaded, length, names, holds⟩ := agree _ _ encodes sees
    match ps, length with
    | [first, second, third], _ =>
      have h₀ := names 0 "J" rfl
      have h₁ := names 1 "I" rfl
      have h₂ := names 2 "I" rfl
      cases h₀
      cases h₁
      cases h₂
      exact ⟨m, c, listed, loaded, holds⟩
  constructor
  · obtain ⟨m, c, listed, loaded, holds⟩ := frame ⟨0x0001⟩
    have fits : registersTaken (threeParameters ⟨0x0001⟩).context
        [⟨"J", some "a"⟩, ⟨"I", none⟩, ⟨"I", none⟩] ≤ 6 := by decide
    exact ⟨rfl, narrow, m, c, listed, loaded,
      holds.elsewhere fits 0 (by decide) (by decide) (by decide),
      holds.receiver fits (by decide), holds.parameter fits 0 _ rfl,
      holds.secondHalf fits 0 _ rfl (by decide), holds.parameter fits 1 _ rfl⟩
  · obtain ⟨m, c, listed, loaded, holds⟩ := frame ⟨0x0009⟩
    have fits : registersTaken (threeParameters ⟨0x0009⟩).context
        [⟨"J", some "a"⟩, ⟨"I", none⟩, ⟨"I", none⟩] ≤ 6 := by decide
    exact ⟨rfl, narrow, m, c, listed, loaded,
      holds.elsewhere fits 0 (by decide) (by decide) (by decide),
      holds.elsewhere fits 1 (by decide) (by decide) (by decide),
      holds.parameter fits 0 _ rfl, holds.secondHalf fits 0 _ rfl (by decide),
      holds.parameter fits 1 _ rfl⟩

end DebugInfo

end DalvikCode
