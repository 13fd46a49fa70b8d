import DalvikCode.Proofs.Instruction.Stream
import DalvikCode.Proofs.Trapping.Payload

/-!
# Walks through an instruction stream on machine words

The address of an instruction is a distance from the start of the stream, which no walk leaves
behind: its position only grows.
-/

namespace DalvikCode.Trapping

/-! ## 1. Steps -/

def view (s : InstructionStream) : Except Trap ByteArray :=
  if s.IsBounded then range s.image 0 s.stop else .ok s.image

def decodeAt (s : InstructionStream) (offset : Nat) : Except Fault (Instruction × Nat) := do
  let distance ← sub offset s.start
  let view ← view s
  let cursor ← ofExcept (Cursor.at? view offset)
  match decode (UInt32.ofNat (distance / 2)) cursor with
  | .error (.trap t) _ => .error (.trap t)
  | .error (.failed e) _ => .error (.failed (s.failureAt offset e))
  | .ok i after =>
    if after.pos ≤ offset then .error (.failed (.malformedInstruction offset .noProgress))
    else if s.stop < after.pos then
      .error (.failed (.malformedInstruction offset (.crossesEnd (some i.size) s.stop)))
    else .ok (i, after.pos)

/-- The next instruction of a walk, or the failure that ends it. -/
def nextInstruction (t : InstructionStream.Traversal) :
    Except Trap (Option (Except DecodeError Instruction) × InstructionStream.Traversal) :=
  if t.failed ∨ t.stream.stop ≤ t.position then .ok (none, t)
  else match decodeAt t.stream t.position with
    | .ok (i, position) => .ok (some (.ok i), { t with position })
    | .error (.failed e) => .ok (some (.error e), { t with failed := true })
    | .error (.trap trap) => .error trap

section
variable {s : InstructionStream} (standard : s.decoder = Instruction.decode)
  (size_lt : s.image.size < 2 ^ 63)

include size_lt in
theorem size_view_lt : s.view.size < 2 ^ 63 := by
  by_cases bounded : s.IsBounded
  · rw [s.size_view bounded]
    exact Nat.lt_of_le_of_lt bounded size_lt
  · rw [InstructionStream.view, if_neg bounded]
    exact size_lt

theorem view_eq (s : InstructionStream) : view s = .ok s.view := by
  rw [view, InstructionStream.view]
  split
  · next bounded => exact range_of_le (Nat.zero_le s.stop) bounded
  · rfl

include standard size_lt

theorem decodeAt_eq {offset : Nat} (start_le : s.start ≤ offset) :
    decodeAt s offset =
      ofExcept ((fun d => (d.instruction, d.next)) <$> s.decodeAt s.view offset) := by
  have view_lt := size_view_lt size_lt
  rw [decodeAt, sub_of_le start_le, view_eq]
  show (ofExcept (Cursor.at? s.view offset) >>= _) = _
  by_cases pos_le : offset ≤ s.view.size
  · have memory : InMemory ⟨s.view, offset⟩ := ⟨pos_le, view_lt⟩
    have same := (agrees_decode (s.addressAt offset)).eq_of_inMemory memory
    rw [InstructionStream.decodeAt_eq standard pos_le, Cursor.at?, if_pos pos_le]
    show (match decode (s.addressAt offset) ⟨s.view, offset⟩ with
      | .error (.trap t) _ => _
      | .error (.failed e) _ => _
      | .ok i after => _) = _
    rw [same, ofReader]
    cases Instruction.decode (s.addressAt offset) ⟨s.view, offset⟩ with
    | error e c => rfl
    | ok i after =>
      -- the two checks of the position behind, which are negated here
      by_cases progress : offset < after.pos
      · by_cases within : after.pos ≤ s.stop
        · simp only [progress, within, ↓reduceDIte, Nat.not_le.mpr progress,
            Nat.not_lt.mpr within, ↓reduceIte]
          rfl
        · simp only [progress, within, ↓reduceDIte, Nat.not_le.mpr progress,
            Nat.not_le.mp within, ↓reduceIte]
          rfl
      · simp only [progress, ↓reduceDIte, Nat.not_lt.mp progress, ↓reduceIte]
        rfl
  · rw [InstructionStream.decodeAt, Cursor.at?, if_neg pos_le]
    rfl

-- The tables of an instruction that a stream yields are slices.
theorem sliced_of_decodeAt {offset : Nat} {d : InstructionStream.Decoded offset s.stop}
    (decoded : s.decodeAt s.view offset = .ok d) : SlicedOperands d.instruction.operands := by
  have view_lt := size_view_lt size_lt
  by_cases pos_le : offset ≤ s.view.size
  · rw [InstructionStream.decodeAt_eq standard pos_le] at decoded
    split at decoded
    · cases decoded
    · next i after ok =>
      split at decoded
      · split at decoded
        · cases decoded
          exact (gives_decode _ _ _ i ⟨pos_le, view_lt⟩ ok).1
        · cases decoded
      · cases decoded
  · rw [InstructionStream.decodeAt, Cursor.at?, if_neg pos_le] at decoded
    cases decoded

end

/-! ## 2. Walks -/

/-- A walk through the stream has come to `t`. -/
inductive Walked (s : InstructionStream) : InstructionStream.Traversal → Prop where
  | start : Walked s s.traversal
  | next {t u : InstructionStream.Traversal} {r : Option (Except DecodeError Instruction)}
      (before : Walked s t) (h : nextInstruction t = .ok (r, u)) : Walked s u

/-- A walk through the stream has not moved back. -/
structure Ahead (s : InstructionStream) (t : InstructionStream.Traversal) : Prop where
  stream_eq : t.stream = s
  start_le : s.start ≤ t.position

theorem Ahead.next {s : InstructionStream} {t : InstructionStream.Traversal} (h : Ahead s t) :
    Ahead s t.next.2 := by
  obtain ⟨rfl, start_le⟩ := h
  rw [InstructionStream.Traversal.next]
  split
  · exact ⟨rfl, start_le⟩
  · split
    · next d _ => exact ⟨rfl, Nat.le_trans start_le (Nat.le_of_lt d.offset_lt)⟩
    · exact ⟨rfl, start_le⟩

section
variable {s : InstructionStream} (standard : s.decoder = Instruction.decode)
  (size_lt : s.image.size < 2 ^ 63) {t : InstructionStream.Traversal}
include standard size_lt

theorem nextInstruction_eq (h : Ahead s t) : nextInstruction t = .ok t.next := by
  obtain ⟨rfl, start_le⟩ := h
  rw [nextInstruction, InstructionStream.Traversal.next]
  by_cases ended : t.failed = true ∨ t.stream.stop ≤ t.position
  · rw [if_pos ended, if_pos ended]
  · rw [if_neg ended, if_neg ended, decodeAt_eq standard size_lt start_le]
    cases t.stream.decodeAt t.stream.view t.position <;> rfl

-- Along the walk; only where it has not moved back is a further step known not to trap.
theorem ahead_of_walked (h : Walked s t) : Ahead s t := by
  induction h with
  | start => exact ⟨rfl, Nat.le_refl _⟩
  | next before h ih =>
    rw [nextInstruction_eq standard size_lt ih, Except.ok.injEq] at h
    have ahead := ih.next
    rw [h] at ahead
    exact ahead

theorem sliced_of_next {u : InstructionStream.Traversal} {i : Instruction} (h : Ahead s t)
    (next : t.next = (some (.ok i), u)) : SlicedOperands i.operands := by
  obtain ⟨rfl, -⟩ := h
  rw [InstructionStream.Traversal.next] at next
  split at next
  · cases next
  · split at next
    · next d decoded =>
      cases next
      exact sliced_of_decodeAt standard size_lt decoded
    · cases next

end

/-- Wherever a walk through the stream has come, it goes on as the stream says, and the tables that
it has passed can be read; nothing traps. -/
structure StreamAgrees (s : InstructionStream) : Prop where
  next : ∀ t, Walked s t → nextInstruction t = .ok t.next
  switchEntries : ∀ t u i p, Walked s t → nextInstruction t = .ok (some (.ok i), u) →
    i.operands = .payload p → Trapping.switchEntries p = .ok p.switchEntries
  element? : ∀ t u i p, Walked s t → nextInstruction t = .ok (some (.ok i), u) →
    i.operands = .payload p → ∀ index, Trapping.element? p index = p.element? index

theorem streamAgrees {s : InstructionStream} (standard : s.decoder = Instruction.decode)
    (size_lt : s.image.size < 2 ^ 63) : StreamAgrees s := by
  have sliced : ∀ t u i p, Walked s t → nextInstruction t = .ok (some (.ok i), u) →
      i.operands = .payload p → Sliced p := by
    intro t u i p walked next operands
    have ahead := ahead_of_walked standard size_lt walked
    rw [nextInstruction_eq standard size_lt ahead, Except.ok.injEq] at next
    have sliced := sliced_of_next standard size_lt ahead next
    rw [operands] at sliced
    exact sliced
  exact {
    next := fun t walked =>
      nextInstruction_eq standard size_lt (ahead_of_walked standard size_lt walked)
    switchEntries := fun t u i p walked next operands =>
      switchEntries_eq (sliced t u i p walked next operands)
    element? := fun t u i p walked next operands =>
      element?_eq (sliced t u i p walked next operands) }

end DalvikCode.Trapping
