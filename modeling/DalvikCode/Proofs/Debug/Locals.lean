import DalvikCode.Debug.Locals

/-!
# Looking up local variables

The slot of a register after each change of the table, and the argument that a register holds on
entry.
-/

namespace DalvikCode

-- A variable takes one register or two.
theorem LocalInfo.width_bounds (info : LocalInfo) : 1 ≤ info.width ∧ info.width ≤ 2 := by
  rw [LocalInfo.width]
  cases info.descriptor? with
  | none => decide
  | some descriptor =>
    show 1 ≤ registerWidth descriptor ∧ registerWidth descriptor ≤ 2
    rw [registerWidth]
    split <;> decide

namespace LocalTable

/-! ## 1. Arguments -/

/-- The argument placed in a register, if arguments take the registers from `start` on.  The second
register of a wide argument holds none. -/
def argumentFrom (start register : Nat) : List LocalInfo → Option LocalInfo
  | [] => none
  | argument :: rest =>
    if register = start then some argument
    else argumentFrom (start + argument.width) register rest

/-- The argument that a register of a frame holds on entry, or the unknown variable if none is
placed there. -/
def argumentIn (registers : Nat) (arguments : List LocalInfo) (register : Nat) : LocalInfo :=
  if totalWidth arguments ≤ registers then
    (argumentFrom (registers - totalWidth arguments) register arguments).getD .unknown
  else .unknown

theorem argumentFrom_eq_some_iff {start register : Nat} {arguments : List LocalInfo}
    {info : LocalInfo} : argumentFrom start register arguments = some info ↔
      ∃ before after, arguments = before ++ info :: after ∧
        register = start + totalWidth before := by
  induction arguments generalizing start with
  | nil =>
    refine iff_of_false nofun ?_
    rintro ⟨_ | _, _, placed, -⟩ <;> cases placed
  | cons argument rest ih =>
    rw [argumentFrom]
    by_cases here : register = start
    · rw [if_pos here, Option.some.injEq]
      constructor
      · rintro rfl
        exact ⟨[], rest, rfl, here⟩
      · rintro ⟨_ | ⟨first, before⟩, after, placed, at_register⟩
        · cases placed
          rfl
        · have width := first.width_bounds
          rw [totalWidth] at at_register
          omega
    · rw [if_neg here, ih]
      constructor
      · rintro ⟨before, after, rfl, at_register⟩
        exact ⟨argument :: before, after, rfl, at_register.trans (Nat.add_assoc _ _ _)⟩
      · rintro ⟨_ | ⟨first, before⟩, after, placed, at_register⟩
        · exact absurd at_register here
        · cases placed
          exact ⟨before, after, rfl, at_register.trans (Nat.add_assoc _ _ _).symm⟩

-- A change of one slot, as it shows in each slot.
theorem getElem?_setIfInBounds_eq (t : LocalTable) (register other : Nat) (slot : LocalSlot) :
    (t.setIfInBounds register slot)[other]? =
      if other = register then t[other]?.map fun _ => slot else t[other]? := by
  rw [Array.getElem?_setIfInBounds]
  by_cases same : other = register
  · subst same
    rw [if_pos rfl, if_pos rfl]
    split
    · next inside => rw [Array.getElem?_eq_getElem inside]; rfl
    · next outside => rw [Array.getElem?_eq_none (Nat.le_of_not_lt outside)]; rfl
  · rw [if_neg (Ne.symm same), if_neg same]

theorem argumentFrom_of_lt {start register : Nat} (lt : register < start)
    (arguments : List LocalInfo) : argumentFrom start register arguments = none := by
  induction arguments generalizing start with
  | nil => rfl
  | cons argument rest ih =>
    rw [argumentFrom, if_neg (Nat.ne_of_lt lt)]
    exact ih (Nat.lt_add_right _ lt)

theorem getElem?_place (t : LocalTable) (start register : Nat) (arguments : List LocalInfo) :
    (place t start arguments)[register]? = t[register]?.map fun slot =>
      ((argumentFrom start register arguments).map (⟨·, true⟩)).getD slot := by
  induction arguments generalizing t start with
  | nil => exact Option.map_id'.symm
  | cons argument rest ih =>
    rw [place, ih, argumentFrom]
    by_cases here : register = start
    · have width := argument.width_bounds
      rw [if_pos here, argumentFrom_of_lt (by omega), getElem?_setIfInBounds_eq, if_pos here,
        Option.map_map]
      rfl
    · rw [if_neg here, getElem?_setIfInBounds_eq, if_neg here]

theorem getElem?_entry (registers register : Nat) (arguments : List LocalInfo) :
    (entry registers arguments)[register]? =
      if register < registers then some ⟨argumentIn registers arguments register, true⟩
      else none := by
  rw [entry, argumentIn]
  split
  · rw [getElem?_place, unknown, Array.getElem?_replicate]
    split
    · cases argumentFrom (registers - totalWidth arguments) register arguments <;> rfl
    · rfl
  · rw [unknown, Array.getElem?_replicate]

/-! ## 2. Arguments by their position -/

theorem totalWidth_append (xs ys : List LocalInfo) :
    totalWidth (xs ++ ys) = totalWidth xs + totalWidth ys := by
  induction xs with
  | nil => simp [totalWidth]
  | cons x xs ih =>
    simp only [List.cons_append, totalWidth, ih]
    omega

theorem totalWidth_take_add (arguments : List LocalInfo) (i n : Nat) :
    totalWidth (arguments.take (i + n)) =
      totalWidth (arguments.take i) + totalWidth ((arguments.drop i).take n) := by
  rw [List.take_add, totalWidth_append]

/-- The first register of the `i`-th argument in a frame that can hold all of them. -/
def registerOf (registers : Nat) (arguments : List LocalInfo) (i : Nat) : Nat :=
  registers - totalWidth arguments + totalWidth (arguments.take i)

-- An argument ends before the next ones begin.
theorem registerOf_add_width_le (registers : Nat) {arguments : List LocalInfo} {i j : Nat}
    {info : LocalInfo} (found : arguments[i]? = some info) (lt : i < j) :
    registerOf registers arguments i + info.width ≤ registerOf registers arguments j := by
  obtain ⟨n, rfl⟩ := Nat.exists_eq_add_of_le lt
  have split := totalWidth_take_add arguments i (1 + n)
  rw [List.drop_eq_getElem?_toList_append, found] at split
  unfold registerOf
  rw [show i.succ + n = i + (1 + n) by omega, split]
  simp only [Option.toList_some, List.singleton_append, Nat.add_comm 1 n, List.take_succ_cons,
    totalWidth]
  omega

section
variable {registers : Nat} {arguments : List LocalInfo}

theorem registerOf_add_width_le_registers {i : Nat} {info : LocalInfo}
    (fits : totalWidth arguments ≤ registers) (found : arguments[i]? = some info) :
    registerOf registers arguments i + info.width ≤ registers := by
  have inside : i < arguments.length := (List.getElem?_eq_some_iff.mp found).1
  have last := registerOf_add_width_le registers found inside
  unfold registerOf at last ⊢
  rw [List.take_length] at last
  omega

theorem argumentIn_registerOf {i : Nat} {info : LocalInfo} (fits : totalWidth arguments ≤ registers)
    (found : arguments[i]? = some info) :
    argumentIn registers arguments (registerOf registers arguments i) = info := by
  have placed : argumentFrom (registers - totalWidth arguments)
      (registerOf registers arguments i) arguments = some info := by
    apply argumentFrom_eq_some_iff.mpr
    obtain ⟨inside, rfl⟩ := List.getElem?_eq_some_iff.mp found
    exact ⟨arguments.take i, arguments.drop (i + 1), by simp, rfl⟩
  unfold argumentIn
  rw [if_pos fits, placed, Option.getD_some]

theorem argumentIn_of_apart {register : Nat}
    (apart : ∀ i < arguments.length, register ≠ registerOf registers arguments i) :
    argumentIn registers arguments register = .unknown := by
  unfold argumentIn
  split
  · next fits =>
    have missing : argumentFrom (registers - totalWidth arguments) register arguments = none := by
      apply Option.eq_none_iff_forall_ne_some.mpr
      intro info placed
      obtain ⟨before, after, rfl, at_register⟩ := argumentFrom_eq_some_iff.mp placed
      apply apart before.length (by simp)
      unfold registerOf
      rw [List.take_left, at_register]
    rw [missing, Option.getD_none]
  · rfl

theorem argumentIn_behind {i register : Nat} {info : LocalInfo} (found : arguments[i]? = some info)
    (behind : registerOf registers arguments i < register)
    (within : register < registerOf registers arguments i + info.width) :
    argumentIn registers arguments register = .unknown := by
  apply argumentIn_of_apart
  rintro j inside rfl
  rcases Nat.lt_trichotomy i j with lt | rfl | lt
  · have := registerOf_add_width_le registers found lt
    omega
  · omega
  · have := registerOf_add_width_le registers (List.getElem?_eq_getElem inside) lt
    omega

theorem getElem?_entry_registerOf {i : Nat} {info : LocalInfo}
    (fits : totalWidth arguments ≤ registers) (found : arguments[i]? = some info) :
    (entry registers arguments)[registerOf registers arguments i]? = some ⟨info, true⟩ := by
  have width := info.width_bounds
  have within := registerOf_add_width_le_registers fits found
  rw [getElem?_entry, if_pos (by omega), argumentIn_registerOf fits found]

end

/-! ## 3. Changes -/

section
variable (t : LocalTable) (register other : Nat)

theorem getElem?_begin (info : LocalInfo) : (t.begin register info)[other]? =
    if other = register then t[other]?.map fun _ => ⟨info, true⟩ else t[other]? :=
  getElem?_setIfInBounds_eq t register other ⟨info, true⟩

theorem getElem?_finish : (t.finish register).2[other]? =
    if other = register then t[other]?.map fun slot => ⟨slot.info, false⟩ else t[other]? := by
  by_cases same : other = register
  · subst same
    rw [if_pos rfl, finish]
    rcases held : t[other]? with _ | ⟨info, _ | _⟩
    · exact held
    · exact held
    · show (t.setIfInBounds other ⟨info, false⟩)[other]? = _
      rw [getElem?_setIfInBounds_eq, if_pos rfl, held]
      rfl
  · rw [if_neg same, finish]
    split
    · rw [getElem?_setIfInBounds_eq, if_neg same]
    · rfl

theorem getElem?_resume : (t.resume register).2[other]? =
    if other = register then t[other]?.map fun slot => ⟨slot.info, true⟩ else t[other]? := by
  by_cases same : other = register
  · subst same
    rw [if_pos rfl, resume]
    rcases held : t[other]? with _ | slot
    · exact held
    · show (t.setIfInBounds other ⟨slot.info, true⟩)[other]? = _
      rw [getElem?_setIfInBounds_eq, if_pos rfl, held]
      rfl
  · rw [if_neg same, resume]
    split
    · rw [getElem?_setIfInBounds_eq, if_neg same]
    · rfl

theorem fst_finish : (t.finish register).1 =
    (t[register]?.map fun slot => if slot.live then slot.info else .unknown).getD .unknown := by
  rw [finish]
  rcases t[register]? with _ | ⟨info, _ | _⟩ <;> rfl

theorem fst_resume : (t.resume register).1 = (t[register]?.map (·.info)).getD .unknown := by
  rw [resume]
  rcases t[register]? with _ | slot <;> rfl

end

end LocalTable

end DalvikCode
