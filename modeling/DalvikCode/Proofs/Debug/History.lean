import DalvikCode.Proofs.Debug.Locals
import DalvikCode.Proofs.Debug.Traversal

/-!
# The history of a register

A register remembers the variable that began in it last, also when the variable has ended.  What is
reported of a variable that ends or is restarted follows from the earlier items about its register;
items about other registers have no part in it.
-/

namespace DalvikCode

/-! ## 1. Histories -/

namespace DebugEvent

/-- The register whose variable an event is about. -/
def register? : DebugEvent → Option UInt32
  | startLocal register _ | endLocal register _ | restartLocal register _ => some register
  | prologueEnd | epilogueBegin | setSourceFile _ | lineNumber _ => none

/-- The variable that begins with an event. -/
def started? : DebugEvent → Option LocalInfo
  | startLocal _ info => some info
  | _ => none

def isEnd : DebugEvent → Bool
  | endLocal .. => true
  | _ => false

end DebugEvent

namespace DebugInfo

/-- The events of some items that are about a register. -/
def eventsOn (register : UInt32) (items : List DebugItem) : List DebugEvent :=
  (items.map (·.event)).filter (·.register? = some register)

/-- The variable that began last, if one began, else the argument. -/
def lastStarted (argument : LocalInfo) (history : List DebugEvent) : LocalInfo :=
  (history.filterMap DebugEvent.started?).getLastD argument

/-- Whether the last event is an end. -/
def hasEnded (history : List DebugEvent) : Bool := history.getLast?.any DebugEvent.isEnd

/-- The slot of a register that held an argument on entry, after the events about it. -/
def slotAfter (argument : LocalInfo) (history : List DebugEvent) : LocalSlot where
  info := lastStarted argument history
  live := !hasEnded history

section
variable (argument : LocalInfo) (history : List DebugEvent) (event : DebugEvent)

theorem lastStarted_concat : lastStarted argument (history ++ [event]) =
    event.started?.getD (lastStarted argument history) := by
  rw [lastStarted, List.filterMap_append, List.filterMap_cons]
  cases event.started? with
  | none => exact congrArg (List.getLastD · argument) (List.append_nil _)
  | some info => exact List.getLastD_concat

theorem slotAfter_concat : slotAfter argument (history ++ [event]) =
    ⟨event.started?.getD (lastStarted argument history), !event.isEnd⟩ := by
  rw [slotAfter, lastStarted_concat, hasEnded, List.getLast?_concat, Option.any_some]

end

section
variable {register : UInt32} {past : List DebugItem} {item : DebugItem}

theorem eventsOn_concat_of_eq (about : item.event.register? = some register) :
    eventsOn register (past ++ [item]) = eventsOn register past ++ [item.event] := by
  have kept : [item.event].filter (·.register? = some register) = [item.event] :=
    List.filter_cons_of_pos (by rw [decide_eq_true_eq]; exact about)
  rw [eventsOn, List.map_append, List.filter_append, List.map_singleton, kept, eventsOn]

theorem eventsOn_concat_of_ne (other : item.event.register? ≠ some register) :
    eventsOn register (past ++ [item]) = eventsOn register past := by
  have dropped : [item.event].filter (·.register? = some register) = [] :=
    List.filter_cons_of_neg (by rw [decide_eq_true_eq]; exact other)
  rw [eventsOn, List.map_append, List.filter_append, List.map_singleton, dropped, List.append_nil,
    eventsOn]

end

/-! ## 2. The table of variables -/

/-- Every slot of the table follows from the argument that its register held on entry and from the
items about the register. -/
def Remembers (registers : Nat) (arguments : List LocalInfo) (past : List DebugItem)
    (t : LocalTable) : Prop :=
  ∀ register : UInt32, t[register.toNat]? =
    if register.toNat < registers then
      some (slotAfter (LocalTable.argumentIn registers arguments register.toNat)
        (eventsOn register past))
    else none

namespace Remembers

variable {registers : Nat} {arguments : List LocalInfo} {past : List DebugItem}
variable {t t' : LocalTable} {item : DebugItem}

theorem entry (registers : Nat) (arguments : List LocalInfo) :
    Remembers registers arguments [] (LocalTable.entry registers arguments) :=
  fun register => LocalTable.getElem?_entry registers register.toNat arguments

-- An item about one register, which changes the slot of that register.
theorem change (h : Remembers registers arguments past t) {register : UInt32}
    (about : item.event.register? = some register) {f : LocalSlot → LocalSlot}
    (changed : ∀ other, t'[other]? =
      if other = register.toNat then t[other]?.map f else t[other]?)
    (after : ∀ argument history,
      slotAfter argument (history ++ [item.event]) = f (slotAfter argument history)) :
    Remembers registers arguments (past ++ [item]) t' := by
  intro other
  rw [changed, h other]
  by_cases same : other = register
  · subst same
    rw [if_pos rfl, eventsOn_concat_of_eq about, after]
    split <;> rfl
  · rw [if_neg fun eq => same (UInt32.toNat_inj.mp eq), eventsOn_concat_of_ne]
    rw [about]
    exact fun eq => same (Option.some.inj eq).symm

-- An item about no register.
theorem keep (h : Remembers registers arguments past t) (about : item.event.register? = none) :
    Remembers registers arguments (past ++ [item]) t := by
  intro other
  rw [h other, eventsOn_concat_of_ne (by rw [about]; nofun)]

variable {context : MethodContext} {m m' : Machine} {op : DebugOp} {item? : Option DebugItem}

theorem pass (h : Remembers registers arguments past m.locals)
    (passes : m.pass context op = (item?, m')) :
    Remembers registers arguments (past ++ item?.toList) m'.locals := by
  have silent : Remembers registers arguments (past ++ []) m.locals := by rwa [List.append_nil]
  cases op with
  | endSequence | advancePc | advanceLine => cases passes; exact silent
  | startLocal register | startLocalExtended register =>
    cases passes
    exact h.change rfl (fun other => LocalTable.getElem?_begin _ _ other _)
      fun argument history => slotAfter_concat argument history _
  | endLocal register =>
    cases passes
    exact h.change rfl (LocalTable.getElem?_finish _ _)
      fun argument history => slotAfter_concat argument history _
  | restartLocal register =>
    cases passes
    exact h.change rfl (LocalTable.getElem?_resume _ _)
      fun argument history => slotAfter_concat argument history _
  | prologueEnd | epilogueBegin | setFile | special => cases passes; exact h.keep rfl

end Remembers

/-! ## 3. Reports -/

/-- What an item reports of a variable that ends or is restarted, by the items before it.  Of these
only the ones about the same register have a part in it. -/
structure Recalls (registers : Nat) (arguments : List LocalInfo) (past : List DebugItem)
    (item : DebugItem) : Prop where
  restarted : ∀ register info, item.event = .restartLocal register info →
    register.toNat < registers →
    info = lastStarted (LocalTable.argumentIn registers arguments register.toNat)
      (eventsOn register past)
  ended : ∀ register info, item.event = .endLocal register info →
    register.toNat < registers →
    info = if hasEnded (eventsOn register past) then .unknown
      else lastStarted (LocalTable.argumentIn registers arguments register.toNat)
        (eventsOn register past)
  outside : ∀ register info,
    item.event = .restartLocal register info ∨ item.event = .endLocal register info →
    registers ≤ register.toNat → info = .unknown

theorem Remembers.recalls {registers : Nat} {arguments : List LocalInfo} {past : List DebugItem}
    {context : MethodContext} {m m' : Machine} {op : DebugOp} {item : DebugItem}
    (h : Remembers registers arguments past m.locals)
    (passes : m.pass context op = (some item, m')) : Recalls registers arguments past item := by
  cases op with
  | endSequence | advancePc | advanceLine => cases passes
  | endLocal register =>
    cases passes
    have reported := LocalTable.fst_finish m.locals register.toNat
    rw [h register] at reported
    refine ⟨nofun, ?_, ?_⟩
    · rintro _ _ ⟨⟩ inside
      rw [if_pos inside] at reported
      refine reported.trans ?_
      rw [Option.map_some, Option.getD_some, slotAfter]
      cases hasEnded (eventsOn register past) <;> rfl
    · rintro _ _ (⟨⟨⟩⟩ | ⟨⟨⟩⟩) outside
      rw [if_neg (Nat.not_lt.mpr outside)] at reported
      exact reported
  | restartLocal register =>
    cases passes
    have reported := LocalTable.fst_resume m.locals register.toNat
    rw [h register] at reported
    refine ⟨?_, nofun, ?_⟩
    · rintro _ _ ⟨⟩ inside
      rw [if_pos inside] at reported
      exact reported
    · rintro _ _ (⟨⟨⟩⟩ | ⟨⟨⟩⟩) outside
      rw [if_neg (Nat.not_lt.mpr outside)] at reported
      exact reported
  | _ =>
    cases passes
    exact ⟨nofun, nofun, nofun⟩

/-- Each item of a walk reports what the items before it tell of its register. -/
theorem recalls_of_walk {d : DebugInfo} {past rest : List DebugItem} {item : DebugItem}
    {t : Traversal} (walk : Traversal.Walks d.traversal (past ++ item :: rest) t) :
    ∃ offset header cursor, d.offset? = some offset ∧
      d.readHeader offset = .ok (header, cursor) ∧
      Recalls d.registers.toNat (arguments d.context header) past item := by
  have nonempty : past ++ item :: rest ≠ [] := List.append_ne_nil_of_right_ne_nil _ nofun
  obtain ⟨offset, header, cursor, present, read⟩ := walk.exists_header nonempty
  have entry := Remembers.entry d.registers.toNat (arguments d.context header)
  obtain ⟨m, op, m', remembers, passes⟩ := Traversal.Walks.exists_pass
    (I := fun past m => Remembers d.registers.toNat (arguments d.context header) past m.locals)
    (fun _ _ _ _ _ remembers passes => remembers.pass passes)
    (m := .init d.context d.registers header) entry (within_of_readHeader read)
    (walk.of_next_eq nonempty (Traversal.next_traversal present read).symm)
  exact ⟨offset, header, cursor, present, read, remembers.recalls passes⟩

-- A receiver that ends twice and is then restarted.
theorem recalls_of_walk_over_two_ends :
    (∃ t, Traversal.Walks
      (resolve ⟨#[0xee, 0x00, 0x00, 0x05, 0x01, 0x05, 0x01, 0x06, 0x01, 0x00]⟩ 1
        { MethodContext.unknown with flags := .empty, definingClass := "LA;" } 2 .strict).traversal
      [⟨0, .endLocal 1 ⟨some "this", some "LA;", none⟩⟩, ⟨0, .endLocal 1 .unknown⟩,
        ⟨0, .restartLocal 1 ⟨some "this", some "LA;", none⟩⟩] t) ∧
    Recalls 2 [⟨some "this", some "LA;", none⟩]
      [⟨0, .endLocal 1 ⟨some "this", some "LA;", none⟩⟩, ⟨0, .endLocal 1 .unknown⟩]
      ⟨0, .restartLocal 1 ⟨some "this", some "LA;", none⟩⟩ := by
  obtain ⟨t, walk⟩ : ∃ t, Traversal.Walks
      (resolve ⟨#[0xee, 0x00, 0x00, 0x05, 0x01, 0x05, 0x01, 0x06, 0x01, 0x00]⟩ 1
        { MethodContext.unknown with flags := .empty, definingClass := "LA;" } 2 .strict).traversal
      ([⟨0, .endLocal 1 ⟨some "this", some "LA;", none⟩⟩, ⟨0, .endLocal 1 .unknown⟩] ++
        [⟨0, .restartLocal 1 ⟨some "this", some "LA;", none⟩⟩]) t :=
    ⟨_, .next rfl (.next rfl (.next rfl (.here _)))⟩
  obtain ⟨offset, header, cursor, present, read, recalls⟩ := recalls_of_walk walk
  exact ⟨⟨t, walk⟩, recalls⟩

end DebugInfo

end DalvikCode
