import DalvikCode.Proofs.Instruction.Tiling
import DalvikCode.Proofs.Instruction.WholeImage
import DalvikCode.Proofs.RunningOut

/-!
# Why a walk fails

A walk with the standard decoder fails at its position.  If the stream ends in the image, the
instruction there is to blame.  If the image ends first, the walk never gets to its end; then the
failure tells whether the bytes of the image settle that there is no instruction, or whether more
bytes would have been needed.
-/

namespace DalvikCode

theorem Instruction.settling_decode (address : UInt32) : Settling (decode address) :=
  .bind .position fun offset => .bind (.number 2) fun unit =>
    .bind (closed_readBody Settling.closed unit offset) fun _ => .bind .position fun _ => .pure _

namespace InstructionStream

open Instruction Traversal

/-! ## 1. Steps -/

/-- The instruction at a position is to blame: none starts there that ends in the stream. -/
structure Blames (s : InstructionStream) (position : Nat) (e : DecodeError) : Prop where
  malformed : ∃ what, e = .malformedInstruction position what
  no_instruction : ∀ i after,
    decode (s.addressAt position) ⟨s.image, position⟩ = .ok i after → s.stop < after.pos

/-- How a walk fails at a position if the image ends before the stream. -/
inductive FailsInImage (s : InstructionStream) (position : Nat) : DecodeError → Prop where
  /-- The bytes that are present settle that no instruction starts there. -/
  | malformed {what : Malformation} {n : Nat}
      (settles : Settles (decode (s.addressAt position)) ⟨s.image, position⟩
        (.error (.malformedInstruction position what)) n) :
      FailsInImage s position (.malformedInstruction position what)
  /-- The instruction there needs bytes behind the image. -/
  | short (runsOut : RunsOut (decode (s.addressAt position)) ⟨s.image, position⟩) :
      FailsInImage s position .outOfBounds
  /-- The walk has not begun, and could not. -/
  | behind (image_lt : s.image.size < s.start) (unmoved : position = s.start) :
      FailsInImage s position .outOfBounds

-- Bytes that settle a failure are not too few, and they settle no other one.
theorem FailsInImage.eq_of_settles {s : InstructionStream} {position n : Nat} {e : DecodeError}
    {what : Malformation} (h : s.FailsInImage position e)
    (settles : Settles (decode (s.addressAt position)) ⟨s.image, position⟩
      (.error (.malformedInstruction position what)) n) :
    e = .malformedInstruction position what := by
  cases h with
  | malformed settles' => exact Except.error.inj (settles'.unique settles)
  | short runsOut => exact absurd runsOut settles.not_runsOut
  | behind image_lt unmoved =>
    have fits : position + n ≤ s.image.size := settles.fits
    omega

theorem FailsInImage.unique {s : InstructionStream} {position : Nat} {e e' : DecodeError}
    (h : s.FailsInImage position e) (h' : s.FailsInImage position e') : e = e' := by
  cases h with
  | malformed settles => exact (h'.eq_of_settles settles).symm
  | short runsOut =>
    cases h' with
    | malformed settles => exact (FailsInImage.short runsOut).eq_of_settles settles
    | short | behind => rfl
  | behind image_lt unmoved =>
    cases h' with
    | malformed settles => exact (FailsInImage.behind image_lt unmoved).eq_of_settles settles
    | short | behind => rfl

section
variable {s : InstructionStream} (standard : s.decoder = Instruction.decode)
include standard

-- What the decoder is shown ends with the stream, so it never passes that end.
theorem le_stop_of_decoder {offset : Nat} {i : Instruction} {after : Cursor}
    (ok : s.decoder (s.addressAt offset) ⟨s.view, offset⟩ = .ok i after) :
    after.pos ≤ s.stop := by
  rw [standard] at ok
  exact Nat.le_trans (lt_of_decode ok).2 s.size_view_le.1

-- A step passes the bytes of its instruction, all of which are in the image.
theorem ends_of_decodeAt {offset : Nat} {d : Decoded offset s.stop}
    (ok : s.decodeAt s.view offset = .ok d) :
    d.next = d.instruction.offset + d.instruction.byteLength ∧ d.next ≤ s.image.size := by
  obtain ⟨bs, x, spells, sees, -, instruction_eq, next_eq⟩ := (decodeAt_eq_ok_iff standard).mp ok
  have length : d.instruction.byteLength = bs.length := by
    rw [instruction_eq]
    show 2 * (bs.length / 2) = bs.length
    rw [spells.length_eq, Nat.mul_div_cancel_left _ (by decide)]
  constructor
  · rw [length, next_eq, instruction_eq]
    rfl
  · rw [next_eq]
    exact sees.add_length_le

theorem blames_of_decodeAt {offset : Nat} {e : DecodeError} (bounded : s.IsBounded)
    (inside : offset < s.stop) (failed : s.decodeAt s.view offset = .error e) :
    s.Blames offset e where
  malformed := malformed_of_decodeAt standard bounded inside failed
  no_instruction i after decoded := by
    apply Nat.not_le.mp
    intro within
    rw [decodeAt_of_decode standard decoded within] at failed
    cases failed

-- Without an end in the image nothing stands between the walk and its decoder.
theorem failsInImage_of_decodeAt {offset : Nat} {e : DecodeError} (unbounded : ¬ s.IsBounded)
    (begun : offset ≤ s.image.size ∨ offset = s.start)
    (failed : s.decodeAt s.view offset = .error e) : s.FailsInImage offset e := by
  have view_eq : s.view = s.image := if_neg unbounded
  by_cases pos_le : offset ≤ s.image.size
  · have readable : offset ≤ s.view.size := by rwa [view_eq]
    rcases settling_decode (s.addressAt offset) ⟨s.image, offset⟩ pos_le with
      ⟨x, n, settles⟩ | runsOut
    · have decoded := settles.eq_here
      cases x with
      | ok i =>
        have within : offset + n ≤ s.stop := Nat.le_trans settles.fits (Nat.le_of_not_le unbounded)
        rw [decodeAt_of_decode standard decoded within] at failed
        cases failed
      | error e' =>
        rw [decodeAt_eq standard readable, view_eq, decoded] at failed
        rcases failsAt_of_decode decoded with rfl | ⟨what, rfl⟩
        · exact absurd rfl settles.answers
        · cases failed
          exact .malformed settles
    · obtain ⟨c, short⟩ := runsOut.short
      rw [decodeAt_eq standard readable, view_eq, short] at failed
      simp only [failureAt, if_neg unbounded] at failed
      cases failed
      exact .short runsOut
  · have unmoved := begun.resolve_left pos_le
    rw [decodeAt, Cursor.at?, view_eq, if_neg pos_le] at failed
    cases failed
    exact .behind (by omega) unmoved

end

/-! ## 2. Walks -/

/-- Why a walk with the standard decoder fails.  In a stream that ends in its image, each failure
blames the instruction at the position of the walk.  If the image ends before the stream, the walk
always fails, with a malformed instruction if the bytes that the image holds settle this, and out of
bounds if the instruction at the position needs more of them or the stream begins behind them; no
position has both kinds of failure.  No instruction that is passed reaches behind the stream or the
image, and what the decoder reads never does. -/
theorem failure_classes (image : ByteArray) (start stop : Nat) (nonempty : start < stop) :
    let s : InstructionStream := { image, start, stop }
    (∃ (items : List Instruction) (failure? : Option DecodeError) (t : Traversal),
      Yields s.traversal (items.map .ok ++ (failure?.map .error).toList) t ∧
      (stop ≤ image.size → ∀ e ∈ failure?, s.Blames t.position e) ∧
      (image.size < stop → ∃ e ∈ failure?, s.FailsInImage t.position e ∧
        ∀ e', s.FailsInImage t.position e' → e' = e) ∧
      ∀ i ∈ items, i.offset + i.byteLength ≤ stop ∧ i.offset + i.byteLength ≤ image.size) ∧
    ∀ offset i after, s.decoder (s.addressAt offset) ⟨s.view, offset⟩ = .ok i after →
      after.pos ≤ stop := by
  intro s
  refine ⟨?_, fun _ _ _ => le_stop_of_decoder (s := s) rfl⟩
  have yields := s.yields_run
  rw [Trace.toList_results] at yields
  obtain ⟨⟨begun, inside⟩, ended⟩ := runFrom_ends (s := s)
    (P := fun position items => (position ≤ image.size ∨ position = start) ∧
      ∀ i ∈ items.toList, i.offset + i.byteLength ≤ stop ∧ i.offset + i.byteLength ≤ image.size)
    (fun offset done d ⟨_, passed⟩ decoded => by
      obtain ⟨ends, in_image⟩ := ends_of_decodeAt (s := s) rfl decoded
      refine ⟨.inl in_image, ?_⟩
      simp only [Array.toList_push, List.mem_append, List.mem_singleton]
      rintro i (mem | rfl)
      · exact passed i mem
      · rw [← ends]
        exact ⟨d.next_le, in_image⟩)
    start #[] ⟨.inr rfl, by simp⟩
  exists s.run.1.items.toList, s.run.1.failure?, s.run.2
  refine ⟨yields, fun bounded e failed => ?_, fun unbounded => ?_, inside⟩
  · have failed : (s.runFrom s.view start #[]).1.failure? = some e := failed
    rw [failed] at ended
    exact blames_of_decodeAt (s := s) rfl bounded ended.1 ended.2
  · cases failed : (s.runFrom s.view start #[]).1.failure? with
    | none =>
      -- the walk would have to be behind the image
      rw [failed] at ended
      have stop_le : stop ≤ (s.runFrom s.view start #[]).2.position := ended
      omega
    | some e =>
      rw [failed] at ended
      have fails := failsInImage_of_decodeAt (s := s) rfl (Nat.not_le.mpr unbounded) begun ended.2
      exact ⟨e, failed, fails, fun e' fails' => fails'.unique fails⟩

/-- A no-operation, and a literal of which the image holds three bytes out of four. -/
def cutLiteral : InstructionStream where
  image := ⟨#[0x00, 0x00, 0x13, 0x00, 0x05]⟩
  start := 0
  stop := 8

theorem failure_classes_of_cutLiteral : 0 < 8 ∧
    ∃ i t, Yields cutLiteral.traversal [.ok i, .error .outOfBounds] t ∧ t.position = 2 ∧
      RunsOut (decode 1) ⟨cutLiteral.image, 2⟩ := by
  refine ⟨by decide, ?_⟩
  obtain ⟨⟨items, failure?, t, yields, -, fails, -⟩, -⟩ :=
    failure_classes cutLiteral.image 0 8 (by decide)
  have walk : Yields cutLiteral.traversal
      [.ok ⟨0, 0, 0, .operands .f10x, 1, .none⟩, .error .outOfBounds]
      { stream := cutLiteral, position := 2, failed := true } :=
    .next rfl (.next rfl (.ended rfl))
  obtain ⟨same, rfl⟩ := yields.unique walk
  obtain ⟨e, rfl, why, -⟩ := fails (by decide)
  refine ⟨_, _, walk, rfl, ?_⟩
  have last := congrArg List.getLast? same
  simp only [Option.map_some, Option.toList_some, List.getLast?_concat] at last
  cases last
  cases why with
  | short runsOut => exact runsOut
  | behind image_lt _ => exact absurd image_lt (by decide)

end InstructionStream

end DalvikCode
