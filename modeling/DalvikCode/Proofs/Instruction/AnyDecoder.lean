import DalvikCode.Proofs.Instruction.Stream

/-!
# Walks with any decoder

A decoder is handed a cursor and may do with it what it likes: leave it where it is, move it back,
put other data under it.  It may keep a state of its own, too, and then each call meets another
behaviour.  Whatever it does, a walk only moves ahead and stays in its stream, and after its end or
its one failure it stays where it is.
-/

namespace DalvikCode.InstructionStream

open Traversal

/-! ## 1. One call -/

/-- The stream, decoded in another way. -/
def withDecoder (s : InstructionStream) (decoder : InstructionDecoder) : InstructionStream :=
  { s with decoder }

-- What is shown to a decoder does not depend on it.
@[simp] theorem view_withDecoder (s : InstructionStream) (decoder : InstructionDecoder) :
    (s.withDecoder decoder).view = s.view := rfl

namespace Traversal

theorem ended_or_inside (t : Traversal) : (t.failed = true ∨ t.stream.stop ≤ t.position) ∨
    ∃ s position, position < s.stop ∧ t = { stream := s, position } := by
  obtain ⟨s, position, failed⟩ := t
  cases failed with
  | true => exact .inl (.inl rfl)
  | false =>
    rcases Nat.lt_or_ge position s.stop with inside | behind
    · exact .inr ⟨s, position, inside, rfl⟩
    · exact .inl (.inr behind)

/-- The next instruction, where the decoder behaves on this call as given. -/
def nextBy (behaviour : InstructionDecoder) (t : Traversal) :
    Option (Except DecodeError Instruction) × Traversal :=
  let u : Traversal := { t with stream := t.stream.withDecoder behaviour }
  (u.next.1, { u.next.2 with stream := t.stream })

/-- How a call may turn out: the walk is over, it passes an instruction, or it fails. -/
inductive Outcome (t : Traversal) : Option (Except DecodeError Instruction) × Traversal → Prop where
  | ended (h : t.failed = true ∨ t.stream.stop ≤ t.position) : Outcome t (none, t)
  | passed (i : Instruction) {next : Nat} (running : t.failed = false) (ahead : t.position < next)
      (within : next ≤ t.stream.stop) : Outcome t (some (.ok i), { t with position := next })
  | refused (e : DecodeError) (running : t.failed = false) (inside : t.position < t.stream.stop) :
      Outcome t (some (.error e), { t with failed := true })

section
variable (behaviour : InstructionDecoder)

-- A walk that is over does not ask its decoder.
theorem nextBy_of_ended {t : Traversal} (ended : t.failed = true ∨ t.stream.stop ≤ t.position) :
    t.nextBy behaviour = (none, t) := by
  have stays : next { t with stream := t.stream.withDecoder behaviour } =
      (none, { t with stream := t.stream.withDecoder behaviour }) := if_pos ended
  rw [nextBy, stays]

theorem nextBy_of_inside (s : InstructionStream) {position : Nat} (inside : position < s.stop) :
    nextBy behaviour { stream := s, position } =
      match (s.withDecoder behaviour).decodeAt s.view position with
      | .ok d => (some (.ok d.instruction), { stream := s, position := d.next })
      | .error e => (some (.error e), { stream := s, position, failed := true }) := by
  have moves := next_of_lt (s.withDecoder behaviour) inside
  rw [nextBy]
  simp only [moves, view_withDecoder]
  cases (s.withDecoder behaviour).decodeAt s.view position <;> rfl

theorem outcome_nextBy (t : Traversal) : Outcome t (t.nextBy behaviour) := by
  rcases ended_or_inside t with ended | ⟨s, position, inside, rfl⟩
  · rw [nextBy_of_ended behaviour ended]
    exact .ended ended
  · rw [nextBy_of_inside behaviour s inside]
    cases (s.withDecoder behaviour).decodeAt s.view position with
    | ok d => exact .passed d.instruction rfl d.offset_lt d.next_le
    | error e => exact .refused e rfl inside

end

theorem eq_of_running {s : InstructionStream} {t : Traversal} (on : t.stream = s)
    (running : t.failed = false) : t = { stream := s, position := t.position } := by
  rw [← on, ← running]

-- A decoder without a state of its own is the one of the stream on each call.
theorem nextBy_decoder (t : Traversal) : t.nextBy t.stream.decoder = t.next := by
  have stays : t.next.2.stream = t.stream := by
    rw [next]
    split
    · rfl
    · split <;> rfl
  rw [nextBy]
  show (t.next.1, { t.next.2 with stream := t.stream }) = t.next
  rw [← stays]

end Traversal

/-! ## 2. Walks -/

section
variable (s : InstructionStream) (behaviours : Nat → InstructionDecoder)

/-- The walk through the stream in front of its `n`-th call, where the decoder behaves on the `k`-th
call like `behaviours k`. -/
def walkTo : Nat → Traversal
  | 0 => s.traversal
  | n + 1 => ((walkTo n).nextBy (behaviours n)).2

/-- What the `n`-th call yields. -/
def yielded (n : Nat) : Option (Except DecodeError Instruction) :=
  ((s.walkTo behaviours n).nextBy (behaviours n)).1

/-- Each of the first `n` calls passes an instruction, ahead of the position and in the stream. -/
def Passes (n : Nat) : Prop :=
  ∀ k < n, (∃ i, s.yielded behaviours k = some (.ok i)) ∧
    (s.walkTo behaviours k).position < (s.walkTo behaviours (k + 1)).position ∧
    (s.walkTo behaviours (k + 1)).position ≤ s.stop

/-- From the `n`-th call on nothing is yielded, and the walk does not move. -/
def Rests (n : Nat) : Prop :=
  ∀ k, n ≤ k → s.yielded behaviours k = none ∧
    (s.walkTo behaviours k).position = (s.walkTo behaviours n).position

theorem stream_walkTo (n : Nat) : (s.walkTo behaviours n).stream = s := by
  induction n with
  | zero => rfl
  | succ n ih => exact ih

-- What a call yields and where it leads, as one outcome.
theorem outcome_walkTo (n : Nat) : Outcome (s.walkTo behaviours n)
    (s.yielded behaviours n, s.walkTo behaviours (n + 1)) :=
  outcome_nextBy (behaviours n) (s.walkTo behaviours n)

variable {s behaviours}

-- An instruction that is passed lies ahead and in the stream.
theorem moves_of_yielded {n : Nat} (passed : ∃ i, s.yielded behaviours n = some (.ok i)) :
    (s.walkTo behaviours n).position < (s.walkTo behaviours (n + 1)).position ∧
      (s.walkTo behaviours (n + 1)).position ≤ s.stop := by
  obtain ⟨i, yielded⟩ := passed
  have outcome := outcome_walkTo s behaviours n
  rw [yielded] at outcome
  generalize s.walkTo behaviours (n + 1) = u at outcome ⊢
  cases outcome with
  | passed i _ ahead within =>
    rw [stream_walkTo] at within
    exact ⟨ahead, within⟩

theorem Passes.start_add_le {n : Nat} (h : Passes s behaviours n) :
    s.start + n ≤ (s.walkTo behaviours n).position := by
  induction n with
  | zero => exact Nat.le_refl _
  | succ n ih =>
    have before := ih fun k lt => h k (Nat.lt_succ_of_lt lt)
    have ahead := (h n (Nat.lt_succ_self n)).2.1
    omega

-- Every instruction takes a byte of the stream at least.
theorem Passes.le {n : Nat} (h : Passes s behaviours n) : n ≤ s.stop - s.start := by
  cases n with
  | zero => exact Nat.zero_le _
  | succ n =>
    have passed := h.start_add_le
    have within := (h n (Nat.lt_succ_self n)).2.2
    omega

-- As long as instructions are passed the walk has not failed.
theorem Passes.running {n : Nat} (h : Passes s behaviours n) :
    (s.walkTo behaviours n).failed = false := by
  cases n with
  | zero => rfl
  | succ n =>
    obtain ⟨⟨i, yielded⟩, -⟩ := h n (Nat.lt_succ_self n)
    have outcome := outcome_walkTo s behaviours n
    rw [yielded] at outcome
    generalize s.walkTo behaviours (n + 1) = u at outcome ⊢
    cases outcome with
    | passed i running => exact running

-- A walk that is over is the same in front of every further call.
theorem walkTo_of_ended {n : Nat}
    (ended : (s.walkTo behaviours n).failed = true ∨ s.stop ≤ (s.walkTo behaviours n).position)
    (d : Nat) : s.walkTo behaviours (n + d) = s.walkTo behaviours n := by
  induction d with
  | zero => rfl
  | succ d ih =>
    rw [← Nat.add_assoc, walkTo, ih, nextBy_of_ended _ (by rw [stream_walkTo]; exact ended)]

theorem rests_of_ended {n : Nat}
    (ended : (s.walkTo behaviours n).failed = true ∨ s.stop ≤ (s.walkTo behaviours n).position) :
    Rests s behaviours n := by
  intro k le
  obtain ⟨d, rfl⟩ := Nat.exists_eq_add_of_le le
  rw [yielded, walkTo_of_ended ended, nextBy_of_ended _ (by rw [stream_walkTo]; exact ended)]
  exact ⟨rfl, rfl⟩

variable (s behaviours) in
-- Up to any call, all calls have passed instructions, or an earlier one is the first that did not.
theorem passes_or_stopped (m : Nat) : Passes s behaviours m ∨
    ∃ n < m, Passes s behaviours n ∧ ∀ i, s.yielded behaviours n ≠ some (.ok i) := by
  induction m with
  | zero => exact .inl fun k lt => absurd lt (Nat.not_lt_zero k)
  | succ m ih =>
    rcases ih with passes | ⟨n, lt, stopped⟩
    · by_cases passed : ∃ i, s.yielded behaviours m = some (.ok i)
      · refine .inl fun k lt => ?_
        rcases Nat.lt_succ_iff_lt_or_eq.mp lt with lt | rfl
        · exact passes k lt
        · exact ⟨passed, moves_of_yielded passed⟩
      · exact .inr ⟨m, Nat.lt_succ_self m, passes, not_exists.mp passed⟩
    · exact .inr ⟨n, Nat.lt_succ_of_lt lt, stopped⟩

/-! ## 3. Ends of walks -/

variable (s behaviours) in
/-- After `n` instructions the walk is at the end of the stream, and stays there. -/
def Completes (n : Nat) : Prop :=
  Rests s behaviours n ∧ (s.start ≤ s.stop → (s.walkTo behaviours n).position = s.stop)

variable (s behaviours) in
/-- After `n` instructions the walk fails where it is, once, and stays there. -/
def Breaks (n : Nat) : Prop :=
  (∃ e, s.yielded behaviours n = some (.error e)) ∧
    (s.walkTo behaviours (n + 1)).position = (s.walkTo behaviours n).position ∧
    Rests s behaviours (n + 1)

theorem Passes.position_le {n : Nat} (h : Passes s behaviours n) (le : s.start ≤ s.stop) :
    (s.walkTo behaviours n).position ≤ s.stop := by
  cases n with
  | zero => exact le
  | succ n => exact (h n (Nat.lt_succ_self n)).2.2

-- The first call that passes no instruction is the end of the walk, or its failure.
theorem Passes.completes_or_breaks {n : Nat} (h : Passes s behaviours n)
    (stopped : ∀ i, s.yielded behaviours n ≠ some (.ok i)) :
    Completes s behaviours n ∨ Breaks s behaviours n := by
  have outcome := outcome_walkTo s behaviours n
  generalize yielded_eq : s.yielded behaviours n = r at outcome stopped
  generalize walkTo_eq : s.walkTo behaviours (n + 1) = u at outcome
  cases outcome with
  | ended ended =>
    rw [stream_walkTo] at ended
    refine .inl ⟨rests_of_ended ended, fun le => ?_⟩
    have reached := ended.resolve_left (by rw [h.running]; exact Bool.false_ne_true)
    exact Nat.le_antisymm (h.position_le le) reached
  | passed i => exact absurd rfl (stopped i)
  | refused e =>
    refine .inr ⟨⟨e, yielded_eq⟩, by rw [walkTo_eq], rests_of_ended (.inl ?_)⟩
    rw [walkTo_eq]

theorem exists_end (s : InstructionStream) (behaviours : Nat → InstructionDecoder) :
    ∃ n ≤ s.stop - s.start, Passes s behaviours n ∧
      (Completes s behaviours n ∨ Breaks s behaviours n) := by
  -- more calls than the stream has bytes cannot all pass an instruction
  rcases passes_or_stopped s behaviours (s.stop - s.start + 1) with
    passes | ⟨n, lt, passes, stopped⟩
  · exact absurd passes.le (Nat.not_succ_le_self _)
  · exact ⟨n, Nat.le_of_lt_succ lt, passes, passes.completes_or_breaks stopped⟩

/-! ## 4. Failures -/

-- A failure that the decoder does not place is placed at the instruction that it was asked for.
theorem nextBy_of_malformed {behaviour : InstructionDecoder} {position : Nat}
    {what : Malformation} {after : Cursor} (inside : position < s.stop)
    (readable : position ≤ s.view.size)
    (failed : behaviour (s.addressAt position) ⟨s.view, position⟩ =
      .error (.malformed what) after) :
    nextBy behaviour { stream := s, position } =
      (some (.error (.malformedInstruction position what)),
        { stream := s, position, failed := true }) := by
  have refused : (s.withDecoder behaviour).decodeAt s.view position =
      .error (.malformedInstruction position what) := by
    have asked : (s.withDecoder behaviour).decoder ((s.withDecoder behaviour).addressAt position)
        ⟨(s.withDecoder behaviour).view, position⟩ = .error (.malformed what) after := failed
    rw [← s.view_withDecoder behaviour, decodeAt_of_le (s.withDecoder behaviour) readable, asked]
    rfl
  rw [nextBy_of_inside behaviour s inside, refused]

/-- The failure is neither a want of bytes nor a defect without a place. -/
def IsPlaced (e : DecodeError) : Prop := e ≠ .outOfBounds ∧ ∀ what, e ≠ .malformed what

theorem isPlaced_malformedInstruction (offset : Nat) (what : Malformation) :
    IsPlaced (.malformedInstruction offset what) := by
  constructor
  · rintro ⟨⟩
  · rintro _ ⟨⟩

theorem isPlaced_failureAt (bounded : s.IsBounded) (offset : Nat) (e : DecodeError) :
    IsPlaced (s.failureAt offset e) := by
  cases e with
  | outOfBounds =>
    -- the view ends with the stream, so the instruction crosses that end
    rw [failureAt, if_pos bounded]
    exact isPlaced_malformedInstruction ..
  | malformed what => exact isPlaced_malformedInstruction offset what
  | _ =>
    constructor
    · rintro ⟨⟩
    · rintro _ ⟨⟩

-- In a stream that ends in the image, every failure is placed.
theorem isPlaced_of_decodeAt (bounded : s.IsBounded) {offset : Nat} {e : DecodeError}
    (inside : offset < s.stop) (failed : s.decodeAt s.view offset = .error e) : IsPlaced e := by
  have readable : offset ≤ s.view.size := by
    rw [size_view s bounded]
    exact Nat.le_of_lt inside
  rw [decodeAt_of_le s readable] at failed
  split at failed
  · cases failed
    exact isPlaced_failureAt bounded offset _
  · split at failed
    · split at failed
      · cases failed
      · cases failed
        exact isPlaced_malformedInstruction ..
    · cases failed
      exact isPlaced_malformedInstruction ..

theorem isPlaced_of_yielded (bounded : s.IsBounded) {n : Nat} {e : DecodeError}
    (refused : s.yielded behaviours n = some (.error e)) : IsPlaced e := by
  have on := stream_walkTo s behaviours n
  rw [yielded] at refused
  generalize s.walkTo behaviours n = t at on refused
  rcases ended_or_inside t with ended | ⟨stream, position, inside, rfl⟩
  · rw [nextBy_of_ended _ ended] at refused
    cases refused
  · subst on
    rw [nextBy_of_inside _ stream inside] at refused
    split at refused
    · cases refused
    · next decoded =>
      cases refused
      exact isPlaced_of_decodeAt (s := stream.withDecoder (behaviours n)) bounded inside decoded

/-! ## 5. Images -/

/-- The stream at the same place of another image. -/
def withImage (s : InstructionStream) (image : ByteArray) : InstructionStream := { s with image }

section
variable {image : ByteArray} (bounded : s.IsBounded)
  (same : image.extract 0 s.stop = s.image.extract 0 s.stop)
include bounded same

-- An image with the same bytes up to the end of the stream holds the stream as well.
theorem isBounded_withImage : (s.withImage image).IsBounded := by
  have size := congrArg ByteArray.size same
  have le : s.stop ≤ s.image.size := bounded
  rw [ByteArray.size_extract, ByteArray.size_extract, Nat.min_eq_left le] at size
  show s.stop ≤ image.size
  omega

theorem view_withImage : (s.withImage image).view = s.view := by
  rw [view, if_pos (isBounded_withImage bounded same), view, if_pos bounded]
  exact same

theorem decodeAt_withImage (decoder : InstructionDecoder) (position : Nat) :
    ((s.withImage image).withDecoder decoder).decodeAt s.view position =
      (s.withDecoder decoder).decodeAt s.view position := by
  have failures : ((s.withImage image).withDecoder decoder).failureAt position =
      (s.withDecoder decoder).failureAt position := by
    funext e
    cases e with
    | outOfBounds =>
      have bounded' := isBounded_withImage bounded same
      exact (if_pos bounded').trans (if_pos (c := s.IsBounded) bounded).symm
    | _ => rfl
  rw [decodeAt, decodeAt, failures]
  rfl

theorem nextBy_withImage (behaviour : InstructionDecoder) {t : Traversal} (on : t.stream = s) :
    nextBy behaviour { t with stream := s.withImage image } =
      ((t.nextBy behaviour).1, { (t.nextBy behaviour).2 with stream := s.withImage image }) := by
  subst on
  rcases ended_or_inside t with ended | ⟨s, position, inside, rfl⟩
  · rw [nextBy_of_ended behaviour ended,
      nextBy_of_ended behaviour (t := { t with stream := t.stream.withImage image }) ended]
  · rw [nextBy_of_inside behaviour s inside,
      nextBy_of_inside behaviour (s.withImage image) inside, view_withImage bounded same,
      decodeAt_withImage bounded same]
    cases (s.withDecoder behaviour).decodeAt s.view position <;> rfl

theorem walkTo_withImage (n : Nat) : (s.withImage image).walkTo behaviours n =
    { s.walkTo behaviours n with stream := s.withImage image } := by
  induction n with
  | zero => rfl
  | succ n ih =>
    rw [walkTo, ih, nextBy_withImage bounded same _ (stream_walkTo s behaviours n)]
    rfl

theorem yielded_withImage (n : Nat) :
    (s.withImage image).yielded behaviours n = s.yielded behaviours n := by
  rw [yielded, walkTo_withImage bounded same,
    nextBy_withImage bounded same _ (stream_walkTo s behaviours n)]
  rfl

end

end

/-- Whatever the decoder does on each call, a walk passes at most as many instructions as its stream
has bytes, each ahead of the position and none behind the end.  Then it completes, or it breaks with
one failure, and rests.  A failure that the decoder does not place is placed where the call began.
In a stream that ends in its image every failure is placed, and only the bytes up to the end of the
stream count.  If the decoder always behaves like the one of the stream, the calls are those of
`next`. -/
theorem calls_end_for_every_decoder (image : ByteArray) (start stop : Nat)
    (decoder : InstructionDecoder) (behaviours : Nat → InstructionDecoder) :
    let s : InstructionStream := { image, start, stop, decoder }
    let position (n : Nat) : Nat := (s.walkTo behaviours n).position
    (∃ n ≤ stop - start, Passes s behaviours n ∧
      (Completes s behaviours n ∨ Breaks s behaviours n)) ∧
    (∀ n what after, Passes s behaviours n → position n < stop → position n ≤ s.view.size →
      behaviours n (s.addressAt (position n)) ⟨s.view, position n⟩ =
        .error (.malformed what) after →
      s.yielded behaviours n = some (.error (.malformedInstruction (position n) what))) ∧
    (s.IsBounded →
      (∀ n e, s.yielded behaviours n = some (.error e) → IsPlaced e) ∧
      ∀ image', image'.extract 0 stop = image.extract 0 stop → ∀ n,
        (s.withImage image').yielded behaviours n = s.yielded behaviours n ∧
          ((s.withImage image').walkTo behaviours n).position = position n) ∧
    ((∀ n, behaviours n = decoder) → ∀ n,
      (s.walkTo behaviours n).next = (s.yielded behaviours n, s.walkTo behaviours (n + 1))) := by
  intro s position
  have on (n : Nat) : (s.walkTo behaviours n).stream = s := stream_walkTo s behaviours n
  refine ⟨s.exists_end behaviours, ?_, ?_, ?_⟩
  · intro n what after passes inside readable failed
    have call := nextBy_of_malformed inside readable failed
    rw [yielded, eq_of_running (on n) passes.running, call]
  · intro bounded
    refine ⟨fun n e refused => isPlaced_of_yielded bounded refused, fun image' same n => ?_⟩
    exact ⟨yielded_withImage bounded same n, by rw [walkTo_withImage bounded same n]⟩
  · intro steady n
    have call := nextBy_decoder (s.walkTo behaviours n)
    rw [on n, show s.decoder = behaviours n from (steady n).symm] at call
    exact call.symm

/-- A decoder that passes one code unit on its first call, and on the next one goes back to the
start of the image and fails. -/
def rewinding : Nat → InstructionDecoder
  | 0 => fun address => do
    Reader.skip 2
    return { (default : Instruction) with address, size := 1 }
  | _ => fun _ => do
    Reader.seek 0
    Reader.malformed (.described "always fails")

theorem calls_end_for_rewinding :
    let s : InstructionStream :=
      { image := ⟨#[0xff, 0x00, 0x00, 0x00, 0x00]⟩, start := 1, stop := 5 }
    (Passes s rewinding 1 ∧ s.IsBounded) ∧
      s.yielded rewinding 1 = some (.error (.malformedInstruction 3 (.described "always fails"))) ∧
      ∀ image', image'.extract 0 5 = s.image → ∀ n,
        (s.withImage image').yielded rewinding n = s.yielded rewinding n := by
  intro s
  have passes : Passes s rewinding 1 := by
    intro k lt
    obtain rfl : k = 0 := Nat.lt_one_iff.mp lt
    exact ⟨⟨_, rfl⟩, by decide +kernel, by decide +kernel⟩
  have bounded : s.IsBounded := by decide
  obtain ⟨-, placed, inside, -⟩ :=
    calls_end_for_every_decoder s.image 1 5 Instruction.decode rewinding
  refine ⟨⟨passes, bounded⟩, placed 1 _ _ passes (by decide +kernel) (by decide +kernel) rfl, ?_⟩
  intro image' same n
  exact ((inside bounded).2 image' (same.trans rfl) n).1

end DalvikCode.InstructionStream
