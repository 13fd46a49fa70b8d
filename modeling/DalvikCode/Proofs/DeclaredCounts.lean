import DalvikCode.Proofs.Debug.Arguments
import DalvikCode.Proofs.Instruction.Stream
import DalvikCode.Proofs.Method.Records

/-!
# Declared counts

An image declares how many names and how many handlers follow, and a debug program has as many
operations as it likes.  None of this is trusted: every pass of a loop takes bytes, so each loop
ends, and what it returns is bounded by the bytes that are there.
-/

namespace DalvikCode

open Leb128

/-! ## 1. Debug programs -/

-- The line, the count and each name take a byte or more.
theorem DebugHeader.Encodes.size_add_two_le {h : DebugHeader} {bs : List UInt8}
    (encodes : h.Encodes bs) : h.parameterNames.size + 2 ≤ bs.length := by
  obtain ⟨xs, ys, zs, line, count, names, rfl⟩ := encodes
  have line_pos := line.1.length_pos
  have count_pos := count.2.1.length_pos
  have names_le := names.mul_length_le (k := 1) fun _ _ => Index.length_pos
  rw [Array.length_toList] at names_le
  simp only [List.length_append]
  omega

namespace DebugInfo

open Traversal

/-- Carrying out `n` operations takes the machine and the cursor from the first pair to the second,
whatever the operations report. -/
inductive CarriesOut (d : DebugInfo) : Nat → Machine → Cursor → Machine → Cursor → Prop where
  | here (m : Machine) (c : Cursor) : CarriesOut d 0 m c m c
  | step {n : Nat} {m m₁ m₂ : Machine} {c c₁ c₂ : Cursor} {item? : Option DebugItem}
      (h : d.step m c = .ok (some (item?, m₁)) c₁) (more : CarriesOut d n m₁ c₁ m₂ c₂) :
      CarriesOut d (n + 1) m c m₂ c₂

section
variable {d : DebugInfo}

theorem CarriesOut.le_remaining {n : Nat} {m m' : Machine} {c c' : Cursor}
    (h : CarriesOut d n m c m' c') (within : c.pos ≤ c.data.size) : n ≤ c.remaining := by
  induction h with
  | here => exact Nat.zero_le _
  | step done more ih =>
    obtain ⟨within', less⟩ := moves_of_step within done
    have behind := ih within'
    omega

-- A walk ends, and every item that it yields has taken a byte.
theorem exists_yields_before (m : Machine) (c : Cursor) (within : c.pos ≤ c.data.size) :
    ∃ (items : List DebugItem) (failure? : Option DecodeError),
      Yields (before d m c) (items.map .ok ++ (failure?.map .error).toList) (closed d) ∧
        items.length ≤ c.remaining := by
  -- an operation leaves fewer bytes, whether it reports an item or not
  induction left : c.remaining using Nat.strongRecOn generalizing m c with
  | _ n ih =>
    have next := next_before (d := d) (m := m) within
    rcases done : d.step m c with ⟨_ | ⟨_ | item, m'⟩, c'⟩ | ⟨e, c'⟩
    · rw [done] at next
      exact ⟨[], none, .ended next (next_closed d), Nat.zero_le _⟩
    · rw [done] at next
      obtain ⟨within', less⟩ := moves_of_step within done
      obtain ⟨items, failure?, yields, le⟩ := ih _ (by omega) m' c' within' rfl
      exact ⟨items, failure?, yields.of_next_eq next, by omega⟩
    · rw [done] at next
      obtain ⟨within', less⟩ := moves_of_step within done
      obtain ⟨items, failure?, yields, le⟩ := ih _ (by omega) m' c' within' rfl
      exact ⟨item :: items, failure?, .next next yields, by rw [List.length_cons]; omega⟩
    · rw [done] at next
      exact ⟨[], some e, .next next (.ended (next_closed d) (next_closed d)), Nat.zero_le _⟩

-- Behind its header a program has two bytes less than there are from its offset on.
theorem remaining_le_of_readHeader {offset : Nat} {header : DebugHeader} {c : Cursor}
    (read : d.readHeader offset = .ok (header, c)) :
    header.parameterNames.size + 2 + c.remaining ≤ d.image.size - offset := by
  obtain ⟨bs, encodes, sees, rfl⟩ := readHeader_eq_ok_iff.mp read
  have taken := encodes.size_add_two_le
  have fits : offset + bs.length ≤ d.image.size := sees.add_length_le
  simp only [Cursor.remaining]
  omega

theorem length_parameterNames_le {offset : Nat} {names : List (Option String)}
    (present : d.offset? = some offset) (ok : d.parameterNames = .ok names) :
    names.length ≤ d.image.size - offset - 2 := by
  cases read : d.readHeader offset with
  | error e =>
    rw [(parameterNames_of_unreadable present).mpr read] at ok
    cases ok
  | ok result =>
    have taken := remaining_le_of_readHeader read
    rw [parameterNames_of_readable present read] at ok
    cases ok
    rw [List.length_map, Array.length_toList]
    omega

theorem exists_yields (d : DebugInfo) :
    ∃ (items : List DebugItem) (failure? : Option DecodeError),
      Yields d.traversal (items.map .ok ++ (failure?.map .error).toList) (closed d) ∧
        (d.offset? = none → items = [] ∧ failure? = none) ∧
        ∀ offset, d.offset? = some offset → items.length ≤ d.image.size - offset - 2 := by
  cases present : d.offset? with
  | none =>
    have next := next_traversal_of_absent present
    exact ⟨[], none, .ended next (next_closed d), fun _ => ⟨rfl, rfl⟩, nofun⟩
  | some offset =>
    cases read : d.readHeader offset with
    | error e =>
      have next := next_traversal_of_unreadable present read
      refine ⟨[], some e, .next next (.ended (next_closed d) (next_closed d)), nofun, ?_⟩
      intro _ _
      exact Nat.zero_le _
    | ok result =>
      obtain ⟨header, c⟩ := result
      have remaining := remaining_le_of_readHeader read
      obtain ⟨items, failure?, yields, le⟩ :=
        exists_yields_before (d := d) (.init d.context d.registers header) c
          (within_of_readHeader read)
      refine ⟨items, failure?, yields.of_next_eq (next_traversal present read), nofun, ?_⟩
      intro _ same
      cases same
      omega

end

end DebugInfo

/-! ## 2. Handler records -/

namespace HandlerRecord

theorem EncodesPair.two_le_length {pair : UInt32 × UInt32} {bs : List UInt8}
    (h : EncodesPair pair bs) : 2 ≤ bs.length := by
  obtain ⟨xs, ys, type, address, rfl⟩ := h
  have type_pos := type.2.1.length_pos
  have address_pos := address.2.1.length_pos
  rw [List.length_append]
  omega

-- The byte of the size makes up for the catch-all, which may take one byte only.
theorem Encodes.two_mul_size_le {size : Int32} {r : HandlerRecord} {bs : List UInt8}
    (h : Encodes size r bs) : 2 * r.handlers.size ≤ bs.length := by
  obtain ⟨xs, ys, zs, ⟨wide, word, -⟩, pairs, last, rfl⟩ := h.bytes
  have word_pos := word.1.length_pos
  have pairs_le := pairs.mul_length_le fun _ _ => EncodesPair.two_le_length
  rw [size_handlers]
  simp only [List.length_append]
  cases found : r.catchAll? with
  | none =>
    simp only [Option.toList_none, List.length_nil]
    omega
  | some address =>
    rw [found] at last
    have last_pos := last.2.1.length_pos
    simp only [Option.toList_some, List.length_singleton]
    omega

theorem Encodes.size_le {size : Int32} {r : HandlerRecord} {bs : List UInt8}
    (h : Encodes size r bs) : r.handlers.size ≤ size.toInt.natAbs + 1 := by
  have length := h.length_typed
  rw [size_handlers]
  cases r.catchAll? with
  | none =>
    simp only [Option.toList_none, List.length_nil]
    omega
  | some address =>
    simp only [Option.toList_some, List.length_singleton]
    omega

end HandlerRecord

/-! ## 3. Instruction streams -/

-- The invariant leaves two bytes for each instruction that the walk has passed.
theorem InstructionStream.two_mul_size_run_le {s : InstructionStream}
    (standard : s.decoder = Instruction.decode) :
    2 * s.run.1.items.size ≤ s.stop - s.start := by
  obtain ⟨⟨passed, inside⟩, -⟩ := runFrom_ends (s := s)
    (P := fun position items => s.start + 2 * items.size ≤ position ∧
      (position ≤ s.stop ∨ position = s.start))
    (fun offset done d passed decoded => by
      obtain ⟨bs, x, spells, -, -, -, next_eq⟩ := (decodeAt_eq_ok_iff standard).mp decoded
      have taken := spells.two_le_length
      have within := d.next_le
      rw [Array.size_push]
      omega)
    s.start #[] (by simp)
  unfold run
  omega

/-! ## 4. All outputs -/

/-- Whatever an image declares, and whatever the limits admit, work and results are bounded by the
bytes that are there.  The walk through a debug program ends, and stays at its end; it yields no
more items, and carries out no more operations, than there are bytes behind the least header.  As
many bytes bound the parameter names, half as many bytes the handlers of a record and the
instructions of a stream.  A loop over a declared count stops one pass behind the bytes. -/
theorem outputs_le_bytes :
    (∀ d : DebugInfo, ∃ (items : List DebugItem) (failure? : Option DecodeError),
      DebugInfo.Traversal.Yields d.traversal
        (items.map .ok ++ (failure?.map .error).toList) (.closed d) ∧
      (d.offset? = none → items = [] ∧ failure? = none) ∧
      ∀ offset, d.offset? = some offset → items.length ≤ d.image.size - offset - 2) ∧
    (∀ (d : DebugInfo) (offset n : Nat) (m m' : DebugInfo.Machine) (c c' : Cursor),
      d.load offset = .ok (m, c) → d.CarriesOut n m c m' c' →
      n ≤ d.image.size - offset - 2) ∧
    (∀ (d : DebugInfo) (names : List (Option String)), d.parameterNames = .ok names →
      (d.offset? = none → names = []) ∧
      ∀ offset, d.offset? = some offset → names.length ≤ d.image.size - offset - 2) ∧
    (∀ (t : TryTable) (b : TryBlock) (hs : Array ExceptionHandler), t.handlers b = .ok hs →
      2 * hs.size ≤ t.image.size - t.recordOffset b ∧ hs.size ≤ t.limits.maxHandlers + 1) ∧
    (∀ (image : ByteArray) (start stop : Nat),
      let s : InstructionStream := { image, start, stop }
      ∃ (items : List Instruction) (failure? : Option DecodeError)
        (t : InstructionStream.Traversal), InstructionStream.Traversal.Yields s.traversal
          (items.map .ok ++ (failure?.map .error).toList) t ∧
        items.length ≤ (stop - start) / 2) ∧
    ∀ (n : Nat) (c : Cursor), c.pos ≤ c.data.size →
      Reader.times n index? c = Reader.times (min n (c.remaining + 1)) index? c ∧
      Reader.times n TryTable.readTyped c =
        Reader.times (min n (c.remaining / 2 + 1)) TryTable.readTyped c := by
  refine ⟨DebugInfo.exists_yields, ?_, ?_, ?_, ?_, ?_⟩
  · intro d offset n m m' c c' loaded carries
    obtain ⟨header, read, -⟩ := DebugInfo.load_eq_ok_iff.mp loaded
    have remaining := DebugInfo.remaining_le_of_readHeader read
    have le := carries.le_remaining (DebugInfo.within_of_readHeader read)
    omega
  · intro d names ok
    refine ⟨fun absent => ?_, fun offset present => DebugInfo.length_parameterNames_le present ok⟩
    unfold DebugInfo.parameterNames at ok
    rw [absent] at ok
    cases ok
    rfl
  · intro t b hs ok
    obtain ⟨size, r, bs, sees, encodes, admitted, rfl⟩ := (TryTable.handlers_eq_ok_iff t b _).mp ok
    have fits : t.recordOffset b + bs.length ≤ t.image.size := sees.add_length_le
    have two_mul_le := encodes.two_mul_size_le
    have le := encodes.size_le
    omega
  · intro image start stop s
    have yields := s.yields_run
    rw [Trace.toList_results] at yields
    refine ⟨_, _, _, yields, ?_⟩
    have bound : 2 * s.run.1.items.size ≤ stop - start :=
      InstructionStream.two_mul_size_run_le (s := s) rfl
    rw [Array.length_toList]
    omega
  · intro n c within
    constructor
    · have passes := parses_index?.times_eq_min (fun _ _ => Index.length_pos) within (by decide) n
      rwa [Nat.div_one] at passes
    · apply TryTable.parses_readTyped.times_eq_min _ within (by decide)
      rintro _ bs ⟨pair, encodes, -⟩
      exact encodes.two_le_length

/-- Debug information that names one parameter, and then moves the address in silence. -/
def silentProgram : DebugInfo where
  image := ⟨#[0xee, 0x01, 0x01, 0x00, 0x01, 0x05, 0x00]⟩
  offset? := some 1
  context := .unknown
  registers := 0
  limits := .permissive

/-- A table whose only record declares the size `-1`. -/
def shortRecord : TryTable where
  image := ⟨#[0xee, 0x7f, 0x05, 0x10, 0x20]⟩
  triesStart := 0
  handlersStart := 0
  count := 1
  codeSize := 1
  limits := .permissive

theorem outputs_le_bytes_of_silentProgram :
    (∃ m m' c c', silentProgram.load 1 = .ok (m, c) ∧ silentProgram.CarriesOut 1 m c m' c' ∧
      1 ≤ silentProgram.image.size - 1 - 2) ∧
    (∃ names, silentProgram.parameterNames = .ok names ∧
      names.length ≤ silentProgram.image.size - 1 - 2) ∧
    (∃ hs, shortRecord.handlers ⟨0, 1, 1⟩ = .ok hs ∧
      2 * hs.size ≤ shortRecord.image.size - shortRecord.recordOffset ⟨0, 1, 1⟩) ∧
    Reader.times (2 ^ 31 - 1) index? ⟨silentProgram.image, 3⟩ =
      Reader.times 5 index? ⟨silentProgram.image, 3⟩ := by
  obtain ⟨-, operations, names, handlers, -, loops⟩ := outputs_le_bytes
  have moved : silentProgram.step ⟨#[], 0, 1, 0⟩ ⟨silentProgram.image, 4⟩ =
      .ok (some (none, ⟨#[], 5, 1, 0⟩)) ⟨silentProgram.image, 6⟩ := rfl
  have carries := DebugInfo.CarriesOut.step moved (.here _ _)
  refine ⟨⟨_, _, _, _, rfl, carries, ?_⟩, ⟨[none], rfl, ?_⟩, ⟨_, rfl, ?_⟩, ?_⟩
  · exact operations silentProgram 1 1 _ _ _ _ rfl carries
  · exact (names silentProgram [none] rfl).2 1 rfl
  · exact (handlers shortRecord ⟨0, 1, 1⟩ _ rfl).1
  · exact (loops (2 ^ 31 - 1) ⟨silentProgram.image, 3⟩ (by decide)).1

end DalvikCode
