import DalvikCode.Instruction.Stream

/-!
# Walks through an instruction stream

A caller walks by calling `next`; `run` walks at once.  Both are the same walk, whatever the decoder
does: `Yields` describes a walk call by call, and `run` is the one walk that it admits.
-/

namespace DalvikCode.InstructionStream

namespace Traversal

/-- Calling `next` from `t` on yields the results `rs` one by one, then none, and ends at `u`. -/
inductive Yields : Traversal → List (Except DecodeError Instruction) → Traversal → Prop where
  | ended {t : Traversal} (h : t.next = (none, t)) : Yields t [] t
  | next {t u v : Traversal} {r : Except DecodeError Instruction}
      {rs : List (Except DecodeError Instruction)} (h : t.next = (some r, u))
      (more : Yields u rs v) : Yields t (r :: rs) v

theorem Yields.unique {t u v : Traversal} {rs rs' : List (Except DecodeError Instruction)}
    (h : Yields t rs u) (h' : Yields t rs' v) : rs = rs' ∧ u = v := by
  induction h generalizing rs' v with
  | ended stop =>
    cases h' with
    | ended => exact ⟨rfl, rfl⟩
    | next step => rw [stop] at step; cases step
  | next step _ ih =>
    cases h' with
    | ended stop => rw [stop] at step; cases step
    | next step' more =>
      rw [step] at step'
      cases step'
      obtain ⟨rfl, rfl⟩ := ih more
      exact ⟨rfl, rfl⟩

-- A walk that failed is over.
theorem next_of_failed {t : Traversal} (h : t.failed = true) : t.next = (none, t) := by
  rw [Traversal.next, if_pos (.inl h)]

-- A walk at the end of its stream is over.
theorem next_of_le {t : Traversal} (h : t.stream.stop ≤ t.position) : t.next = (none, t) := by
  rw [Traversal.next, if_pos (.inr h)]

-- Inside its stream a walk decodes.
theorem next_of_lt (s : InstructionStream) {offset : Nat} (inside : offset < s.stop) :
    Traversal.next { stream := s, position := offset } =
      match s.decodeAt s.view offset with
      | .ok d => (some (.ok d.instruction), { stream := s, position := d.next })
      | .error e => (some (.error e), { stream := s, position := offset, failed := true }) := by
  have running : ¬ (false = true ∨ s.stop ≤ offset) :=
    not_or.mpr ⟨Bool.false_ne_true, Nat.not_le.mpr inside⟩
  rw [Traversal.next, if_neg running]
  cases s.decodeAt s.view offset <;> rfl

end Traversal

open Traversal

-- The invariant is about the position of the walk and the instructions that it has passed.
theorem runFrom_ends {s : InstructionStream} {P : Nat → Array Instruction → Prop}
    (step : ∀ offset done (d : Decoded offset s.stop), P offset done →
      s.decodeAt s.view offset = .ok d → P d.next (done.push d.instruction))
    (offset : Nat) (done : Array Instruction) (here : P offset done) :
    P (s.runFrom s.view offset done).2.position (s.runFrom s.view offset done).1.items ∧
      match (s.runFrom s.view offset done).1.failure? with
      | none => s.stop ≤ (s.runFrom s.view offset done).2.position
      | some e => (s.runFrom s.view offset done).2.position < s.stop ∧
        s.decodeAt s.view (s.runFrom s.view offset done).2.position = .error e := by
  fun_induction runFrom s s.view offset done with
  | case1 offset done inside d decoded ih => exact ih (step offset done d here decoded)
  | case2 offset done inside e failed => exact ⟨here, inside, failed⟩
  | case3 offset done outside => exact ⟨here, Nat.not_lt.mp outside⟩

-- What a walk has yielded up to its end, given what it had passed before.
theorem yields_runFrom (s : InstructionStream) (offset : Nat) (done : Array Instruction) :
    ∃ is, (s.runFrom s.view offset done).1.items.toList = done.toList ++ is ∧
      Yields { stream := s, position := offset }
        (is.map .ok ++ ((s.runFrom s.view offset done).1.failure?.map .error).toList)
        (s.runFrom s.view offset done).2 := by
  -- along the recursion of `runFrom`: a decoded instruction is one more call of `next`
  fun_induction runFrom s s.view offset done with
  | case1 offset done inside d decoded ih =>
    obtain ⟨is, items, yields⟩ := ih
    refine ⟨d.instruction :: is, ?_, .next (by rw [next_of_lt s inside, decoded]) yields⟩
    rw [items, Array.toList_push, List.append_assoc, List.singleton_append]
  | case2 offset done inside e failed =>
    exact ⟨[], (List.append_nil _).symm,
      .next (by rw [next_of_lt s inside, failed]) (.ended (next_of_failed rfl))⟩
  | case3 offset done outside =>
    exact ⟨[], (List.append_nil _).symm, .ended (next_of_le (Nat.not_lt.mp outside))⟩

/-- Walking step by step yields the results of `run` and ends where it ends. -/
theorem yields_run (s : InstructionStream) :
    Yields s.traversal s.run.1.results.toList s.run.2 := by
  obtain ⟨is, items, yields⟩ := s.yields_runFrom s.start #[]
  have results : s.run.1.results.toList =
      is.map .ok ++ (s.run.1.failure?.map .error).toList := by
    rw [Trace.toList_results, run, items]
    rfl
  rw [results]
  exact yields

end DalvikCode.InstructionStream
