import DalvikCode.Proofs.Instruction.AnyDecoder
import DalvikCode.Proofs.LookingAhead

/-!
# Instruction streams in two images

Decoding an instruction looks ahead, and the view of a stream ends where the stream ends.  So a walk
through a stream sees the bytes of the stream and nothing else: it is the same walk in every image
that holds these bytes at the same place.
-/

namespace DalvikCode

theorem Instruction.looksAhead_decode (address : UInt32) : LooksAhead (decode address) :=
  .bind .position fun offset => .bind (.number 2) fun unit =>
    .bind (closed_readBody LooksAhead.closed unit offset) fun _ => .bind .position fun _ => .pure _

namespace InstructionStream

/-! ## 1. Calls -/

namespace Traversal

theorem next_of_ended {t : Traversal} (ended : t.failed = true ∨ t.stream.stop ≤ t.position) :
    t.next = (none, t) := by
  rw [Traversal.next, if_pos ended]

theorem stream_next (t : Traversal) : t.next.2.stream = t.stream := by
  rcases ended_or_inside t with ended | ⟨s, position, inside, rfl⟩
  · rw [next_of_ended ended]
  · rw [next_of_lt s inside]
    cases s.decodeAt s.view position <;> rfl

theorem position_le_next (t : Traversal) : t.position ≤ t.next.2.position := by
  rcases ended_or_inside t with ended | ⟨s, position, inside, rfl⟩
  · exact Nat.le_of_eq (congrArg (·.2.position) (next_of_ended ended)).symm
  · rw [next_of_lt s inside]
    cases s.decodeAt s.view position with
    | ok d => exact Nat.le_of_lt d.offset_lt
    | error e => exact Nat.le_refl position

end Traversal

section
variable {s : InstructionStream} {image : ByteArray}
  (same : Bytes.SameOn s.image image s.start s.stop)
include same

theorem alike_views {offset : Nat} (start_le : s.start ≤ offset) (le_stop : offset ≤ s.stop) :
    (⟨s.view, offset⟩ : Cursor).Alike ⟨(s.withImage image).view, offset⟩ := by
  have bounded : s.IsBounded := same.le_size
  have bounded' : (s.withImage image).IsBounded := same.le_size'
  refine ⟨rfl, ?_, ?_⟩
  · exact (size_view _ bounded').trans (size_view s bounded).symm
  · rw [rest_view _ offset bounded', rest_view s offset bounded]
    exact (same.mono start_le le_stop (Nat.le_refl _)).rest_take

theorem failureAt_of_sameOn (offset : Nat) (e : DecodeError) :
    (s.withImage image).failureAt offset e = s.failureAt offset e := by
  cases e with
  | outOfBounds =>
    exact (if_pos (c := (s.withImage image).IsBounded) same.le_size').trans
      (if_pos (c := s.IsBounded) same.le_size).symm
  | _ => rfl

variable (ahead : ∀ address, LooksAhead (s.decoder address))
include ahead

theorem decodeAt_of_sameOn {offset : Nat} (start_le : s.start ≤ offset)
    (le_stop : offset ≤ s.stop) :
    (s.withImage image).decodeAt (s.withImage image).view offset = s.decodeAt s.view offset := by
  have alike := alike_views same start_le le_stop
  have pos_le : offset ≤ s.view.size := by
    rw [size_view s same.le_size]
    exact le_stop
  have pos_le' : offset ≤ (s.withImage image).view.size := by
    rw [alike.size_eq]
    exact pos_le
  have results : AlikeResults (s.decoder (s.addressAt offset) ⟨s.view, offset⟩)
      ((s.withImage image).decoder ((s.withImage image).addressAt offset)
        ⟨(s.withImage image).view, offset⟩) := ahead (s.addressAt offset) _ _ alike
  rw [decodeAt_of_le _ pos_le', decodeAt_of_le s pos_le]
  generalize s.decoder (s.addressAt offset) ⟨s.view, offset⟩ = x,
    (s.withImage image).decoder ((s.withImage image).addressAt offset)
      ⟨(s.withImage image).view, offset⟩ = x' at results ⊢
  cases results with
  | ok i alike =>
    simp only [alike.pos_eq]
    rfl
  | error e =>
    exact congrArg Except.error (failureAt_of_sameOn same offset e)

/-! ## 3. Walks -/

namespace Traversal

theorem next_of_sameOn {t : Traversal} (on : t.stream = s) (start_le : s.start ≤ t.position) :
    Traversal.next { t with stream := s.withImage image } =
      (t.next.1, { t.next.2 with stream := s.withImage image }) := by
  subst on
  rcases ended_or_inside t with ended | ⟨s, position, inside, rfl⟩
  · rw [next_of_ended ended]
    exact next_of_ended ended
  · have decoded := decodeAt_of_sameOn same ahead start_le (Nat.le_of_lt inside)
    rw [next_of_lt s inside, next_of_lt (s.withImage image) inside, decoded]
    cases s.decodeAt s.view position <;> rfl

/-- A walk yields the same and ends at the same place where the bytes of its stream are the same. -/
theorem yields_of_sameOn {t u : Traversal} {rs : List (Except DecodeError Instruction)}
    (on : t.stream = s) (start_le : s.start ≤ t.position) (yields : Yields t rs u) :
    Yields { t with stream := s.withImage image } rs { u with stream := s.withImage image } := by
  induction yields with
  | ended stop =>
    have call := next_of_sameOn same ahead on start_le
    rw [stop] at call
    exact .ended call
  | @next t u v r rs step more ih =>
    have call := next_of_sameOn same ahead on start_le
    have stays := stream_next t
    have moves := position_le_next t
    rw [step] at call stays moves
    exact .next call (ih (stays.trans on) (Nat.le_trans start_le moves))

end Traversal

end

end InstructionStream

end DalvikCode
