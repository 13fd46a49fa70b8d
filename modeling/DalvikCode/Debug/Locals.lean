import DalvikCode.Method.Context

/-!
# Local variables

Which variable each register of a frame holds while a debug program runs.  A variable that has ended
is remembered, so that it can be restarted.
-/

namespace DalvikCode

/-- What is known of a local variable. -/
structure LocalInfo where
  name? : Option String := none
  descriptor? : Option String := none
  signature? : Option String := none
  deriving DecidableEq, Repr, Inhabited

namespace LocalInfo

/-- The variable of which nothing is known. -/
def unknown : LocalInfo := {}

/-- The number of registers that the variable takes. -/
def width (info : LocalInfo) : Nat := (info.descriptor?.map registerWidth).getD 1

end LocalInfo

/-- The last variable of a register, and whether it still holds. -/
structure LocalSlot where
  info : LocalInfo
  live : Bool
  deriving DecidableEq, Repr, Inhabited

/-- The variables of a frame, one slot for each register. -/
abbrev LocalTable := Array LocalSlot

namespace LocalTable

/-! ## 1. The frame at the start of a method -/

/-- The frame that knows no variable. -/
def unknown (registers : Nat) : LocalTable := Array.replicate registers ⟨.unknown, true⟩

/-- Places arguments in consecutive registers from `register` on. -/
def place (t : LocalTable) (register : Nat) : List LocalInfo → LocalTable
  | [] => t
  | argument :: rest =>
    place (t.setIfInBounds register ⟨argument, true⟩) (register + argument.width) rest

@[simp] theorem size_place (t : LocalTable) (register : Nat) (arguments : List LocalInfo) :
    (place t register arguments).size = t.size := by
  induction arguments generalizing t register with
  | nil => rfl
  | cons argument rest ih => rw [place, ih, Array.size_setIfInBounds]

/-- The number of registers that some variables take together. -/
def totalWidth : List LocalInfo → Nat
  | [] => 0
  | info :: rest => info.width + totalWidth rest

/-- The frame on entry: arguments take its last registers.  Arguments that the frame cannot hold are
all left out. -/
def entry (registers : Nat) (arguments : List LocalInfo) : LocalTable :=
  if totalWidth arguments ≤ registers then
    place (unknown registers) (registers - totalWidth arguments) arguments
  else unknown registers

@[simp] theorem size_entry (registers : Nat) (arguments : List LocalInfo) :
    (entry registers arguments).size = registers := by
  unfold entry
  split <;> simp only [size_place, unknown, Array.size_replicate]

/-! ## 2. Changes -/

/-- A variable begins in a register. -/
def begin (t : LocalTable) (register : Nat) (info : LocalInfo) : LocalTable :=
  t.setIfInBounds register ⟨info, true⟩

/-- The variable of a register ends.  Returns it, or the unknown variable if none was live. -/
def finish (t : LocalTable) (register : Nat) : LocalInfo × LocalTable :=
  match t[register]? with
  | some ⟨info, true⟩ => (info, t.setIfInBounds register ⟨info, false⟩)
  | _ => (.unknown, t)

/-- The last variable of a register holds again.  Returns it. -/
def resume (t : LocalTable) (register : Nat) : LocalInfo × LocalTable :=
  match t[register]? with
  | some ⟨info, _⟩ => (info, t.setIfInBounds register ⟨info, true⟩)
  | none => (.unknown, t)

@[simp] theorem size_begin (t : LocalTable) (register : Nat) (info : LocalInfo) :
    (t.begin register info).size = t.size :=
  Array.size_setIfInBounds

@[simp] theorem size_finish (t : LocalTable) (register : Nat) :
    (t.finish register).2.size = t.size := by
  unfold finish
  split
  · exact Array.size_setIfInBounds
  · rfl

@[simp] theorem size_resume (t : LocalTable) (register : Nat) :
    (t.resume register).2.size = t.size := by
  unfold resume
  split
  · exact Array.size_setIfInBounds
  · rfl

end LocalTable

end DalvikCode
