import DalvikCode.Proofs.Debug.Traversal

/-!
# Debug items under lower limits

A machine counts the items that it has emitted, and refuses one too many.  A lower limit cuts a walk
off where the count reaches it, if one more item follows; before that it changes nothing.
-/

namespace DalvikCode

/-- A trace as far as a limit on the number of its items goes. -/
def Trace.cutTo {α : Type} (t : Trace α) (limit : Nat) : Trace α :=
  if t.items.size ≤ limit then t
  else ⟨t.items.take limit, some (.malformed (.tooManyDebugItems limit))⟩

namespace DebugInfo

open Reader

/-- The same debug information, to be read under other limits. -/
def under (limits : Limits) (d : DebugInfo) : DebugInfo := { d with limits }

/-! ## 1. One operation -/

section
variable {limits greater : Limits} (le : limits.maxDebugItems ≤ greater.maxDebugItems)
  {m : Machine} (room : m.emitted ≤ limits.maxDebugItems)
include le room

-- An item that only the greater limits admit is the one at which the count has reached the lower.
theorem Machine.emit?_of_le (event? : Option DebugEvent) :
    m.emit? limits event? = match m.emit? greater event? with
      | .ok (some item, m') =>
        if m.emitted < limits.maxDebugItems then .ok (some item, m')
        else .error (.malformed (.tooManyDebugItems limits.maxDebugItems))
      | result => result := by
  cases event? with
  | none => rfl
  | some event =>
    rw [emit?, emit?]
    by_cases admitted : m.emitted < greater.maxDebugItems
    · rw [if_pos admitted]
    · have same : limits.maxDebugItems = greater.maxDebugItems := by omega
      rw [if_neg admitted, same, if_neg admitted]

end

section
variable {d : DebugInfo} {limits : Limits} (le : limits.maxDebugItems ≤ d.limits.maxDebugItems)
  {m : Machine} {c : Cursor}

theorem Machine.emitted_of_pass {context : MethodContext} {op : DebugOp} {m' : Machine}
    {item? : Option DebugItem} (passes : m.pass context op = (item?, m')) :
    m'.emitted = m.emitted + item?.toList.length := by
  rw [← m.emitted_apply context op]
  rw [Machine.pass] at passes
  split at passes
  · next applied =>
    cases passes
    rw [applied]
    rfl
  · next applied =>
    cases passes
    rw [applied]
    rfl

include le

theorem step_under (room : m.emitted ≤ limits.maxDebugItems) :
    (d.under limits).step m c = match d.step m c with
      | .ok (some (some item, m')) c' =>
        if m.emitted < limits.maxDebugItems then .ok (some (some item, m')) c'
        else .error (.malformed (.tooManyDebugItems limits.maxDebugItems)) c'
      | result => result := by
  rw [step_eq, step_eq]
  cases read : DebugOp.read c with
  | error e c' => rw [bind_of_error read, bind_of_error read]
  | ok op c' =>
    rw [bind_of_ok read, bind_of_ok read]
    by_cases marker : op = .endSequence
    · rw [if_pos marker, if_pos marker]
      rfl
    · rw [if_neg marker, if_neg marker, show (d.under limits).context = d.context from rfl,
        show (d.under limits).limits = limits from rfl]
      rw [← m.emitted_apply d.context op] at room ⊢
      rw [Machine.emit?_of_le le room]
      rcases (m.apply d.context op).2.emit? d.limits (m.apply d.context op).1 with
        e | ⟨_ | item, m'⟩
      · rfl
      · rfl
      · dsimp only
        split <;> rfl

/-! ## 2. One call -/

namespace Traversal

theorem next_under (room : m.emitted ≤ limits.maxDebugItems) (within : c.pos ≤ c.data.size) :
    (before (d.under limits) m c).next = match (before d m c).next with
      | (some (.ok item), u) =>
        if m.emitted < limits.maxDebugItems then
          (some (.ok item), { u with info := d.under limits })
        else
          (some (.error (.malformed (.tooManyDebugItems limits.maxDebugItems))),
            closed (d.under limits))
      | (result, _) => (result, closed (d.under limits)) := by
  induction left : c.remaining using Nat.strongRecOn generalizing m c with
  | _ n ih =>
    rw [next_before within, next_before within, step_under le room]
    rcases done : d.step m c with ⟨_ | ⟨_ | item, m'⟩, c'⟩ | ⟨e, c'⟩
    · rfl
    · obtain ⟨op, -, -, passes, -⟩ := step_eq_ok_iff.mp done
      obtain ⟨within', less⟩ := moves_of_step within done
      have same : m'.emitted = m.emitted := Machine.emitted_of_pass passes
      rw [← same] at room ⊢
      exact ih _ (by omega) room within' rfl
    · by_cases admitted : m.emitted < limits.maxDebugItems
      · simp only [if_pos admitted]
        rfl
      · simp only [if_neg admitted]
    · rfl

end Traversal

end

/-! ## 3. Walks -/

namespace Traversal

section
variable {d : DebugInfo} {t : Traversal} {failure? : Option DecodeError}
  (last : t.next = (failure?.map .error, closed d))
include last

theorem yields_of_last : Yields t (failure?.map .error).toList (closed d) := by
  cases failure? with
  | none => exact .ended last rfl
  | some e => exact .next last (.ended rfl rfl)

theorem eq_of_last {rs : List (Except DecodeError DebugItem)} {u : Traversal}
    (yields : Yields t rs u) : rs = (failure?.map .error).toList := by
  cases failure? with
  | none =>
    cases yields with
    | ended _ _ => rfl
    | next step _ => rw [last] at step; cases step
  | some e =>
    cases yields with
    | ended stop _ => rw [last] at stop; cases stop
    | next step more =>
      rw [last] at step
      cases step
      cases more with
      | ended _ _ => rfl
      | next step _ => cases step

end

-- Either the limits count for the machine only, or there is no machine at all.
theorem next_traversal_under (d : DebugInfo) :
    (∃ m c, m.emitted = 0 ∧ c.pos ≤ c.data.size ∧ ∀ limits,
      (d.under limits).traversal.next = (before (d.under limits) m c).next) ∨
    ∃ failure? : Option DecodeError, ∀ limits,
      (d.under limits).traversal.next = (failure?.map .error, closed (d.under limits)) := by
  cases present : d.offset? with
  | none =>
    exact .inr ⟨none, fun limits => next_traversal_of_absent (d := d.under limits) present⟩
  | some offset =>
    cases read : d.readHeader offset with
    | ok result =>
      obtain ⟨header, c⟩ := result
      exact .inl ⟨.init d.context d.registers header, c, rfl, within_of_readHeader read,
        fun limits => next_traversal (d := d.under limits) present read⟩
    | error e =>
      exact .inr ⟨some e, fun limits =>
        next_traversal_of_unreadable (d := d.under limits) present read⟩

section
variable {d : DebugInfo} {limits : Limits} {m : Machine} {c : Cursor}

theorem exists_before_of_next {item : DebugItem} {u : Traversal} (within : c.pos ≤ c.data.size)
    (ok : (before d m c).next = (some (.ok item), u)) :
    ∃ m' c', m'.emitted = m.emitted + 1 ∧ c'.pos ≤ c'.data.size ∧ u = before d m' c' := by
  obtain ⟨m₁, op, m', c', same, passes, within', rfl⟩ :=
    exists_pass_of_next (I := fun m₁ => m₁.emitted = m.emitted)
      (fun _ _ _ same passes => (Machine.emitted_of_pass passes).trans same) rfl within ok
  exact ⟨m', c', same ▸ Machine.emitted_of_pass passes, within', rfl⟩

variable (le : limits.maxDebugItems ≤ d.limits.maxDebugItems)
include le

theorem yields_under_of_le {items : List DebugItem} {failure? : Option DecodeError} {u : Traversal}
    (room : m.emitted + items.length ≤ limits.maxDebugItems) (within : c.pos ≤ c.data.size)
    (yields : Yields (before d m c) (items.map .ok ++ (failure?.map .error).toList) u) :
    Yields (before (d.under limits) m c) (items.map .ok ++ (failure?.map .error).toList)
      (closed (d.under limits)) := by
  have under := next_under le (by omega : m.emitted ≤ limits.maxDebugItems) within
  induction items generalizing m c with
  | nil =>
    refine yields_of_last ?_
    cases failure? with
    | none =>
      cases yields with
      | ended stop _ => rw [under, stop]; rfl
    | some e =>
      cases yields with
      | next failed _ => rw [under, failed]; rfl
  | cons item items ih =>
    cases yields with
    | next ok more =>
      obtain ⟨m', c', count, within', rfl⟩ := exists_before_of_next within ok
      rw [List.length_cons] at room
      rw [ok] at under
      dsimp only at under
      rw [if_pos (by omega)] at under
      have room' : m'.emitted + items.length ≤ limits.maxDebugItems := by omega
      exact .next under (ih room' within' more (next_under le (by omega) within'))

theorem yields_under_of_lt {items : List DebugItem} {rest : List (Except DecodeError DebugItem)}
    {u : Traversal} (room : m.emitted ≤ limits.maxDebugItems)
    (beyond : limits.maxDebugItems < m.emitted + items.length) (within : c.pos ≤ c.data.size)
    (yields : Yields (before d m c) (items.map .ok ++ rest) u) :
    Yields (before (d.under limits) m c)
      ((items.take (limits.maxDebugItems - m.emitted)).map .ok ++
        [.error (.malformed (.tooManyDebugItems limits.maxDebugItems))])
      (closed (d.under limits)) := by
  induction items generalizing m c with
  | nil => exact absurd beyond (Nat.not_lt.mpr room)
  | cons item items ih =>
    cases yields with
    | next ok more =>
      have under := next_under le room within
      obtain ⟨m', c', count, within', rfl⟩ := exists_before_of_next within ok
      rw [ok] at under
      dsimp only at under
      rw [List.length_cons] at beyond
      by_cases admitted : m.emitted < limits.maxDebugItems
      · rw [if_pos admitted] at under
        rw [show limits.maxDebugItems - m.emitted = limits.maxDebugItems - m'.emitted + 1 by omega,
          List.take_succ_cons]
        exact .next under (ih (by omega) (by omega) within' more)
      · rw [if_neg admitted] at under
        rw [show limits.maxDebugItems - m.emitted = 0 by omega]
        exact .next under (.ended rfl rfl)

/-- What a walk yields under lower limits: the same, as far as these admit it. -/
theorem yields_under {trace : Trace DebugItem} {u : Traversal}
    (yields : Yields d.traversal trace.results.toList u) :
    Yields (d.under limits).traversal (trace.cutTo limits.maxDebugItems).results.toList
      (closed (d.under limits)) := by
  rw [Trace.toList_results] at yields
  rcases next_traversal_under d with ⟨m, c, fresh, within, begins⟩ | ⟨failure?, ends⟩
  · have yields := yields.of_next_eq (begins d.limits).symm
    refine .of_next_eq (begins limits) ?_
    rw [Trace.cutTo]
    split
    · next few =>
      rw [Trace.toList_results]
      exact yields_under_of_le le (by rw [fresh, Nat.zero_add]; exact few) within yields
    · next many =>
      have cut := yields_under_of_lt le (by rw [fresh]; exact Nat.zero_le _)
        (by rw [fresh, Nat.zero_add]; exact Nat.not_le.mp many) within yields
      rw [fresh] at cut
      rw [Trace.toList_results, Array.take_eq_extract, Array.toList_extract,
        List.extract_eq_take_drop, List.drop_zero, Nat.sub_zero]
      exact cut
  · have results := eq_of_last (ends d.limits) yields
    have none_yielded : trace.items.toList = [] := by
      cases items : trace.items.toList with
      | nil => rfl
      | cons item rest => rw [items] at results; cases failure? <;> cases results
    have few : trace.items.size ≤ limits.maxDebugItems := by
      rw [← Array.length_toList, none_yielded]
      exact Nat.zero_le _
    rw [Trace.cutTo, if_pos few, Trace.toList_results, results]
    exact yields_of_last (ends limits)

end

end Traversal

end DebugInfo

end DalvikCode
