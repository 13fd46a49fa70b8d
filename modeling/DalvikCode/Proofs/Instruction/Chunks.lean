import DalvikCode.Proofs.Instruction.Stream
import Mathlib.Data.List.Forall2

/-!
# Streams as chunks

A stream is accepted exactly if its bytes can be cut into chunks each of which is one instruction on
its own.  No instruction continues another one, so the cut is unique, and the walk finds it.
-/

namespace DalvikCode.Instruction

/-! ## 1. Instructions on their own -/

/-- Decoded on its own from its first byte on, `w` is the instruction `i`, which takes all of it. -/
def Accepts (w : List UInt8) (i : Instruction) : Prop :=
  ∃ c, decode 0 (Cursor.start w.toByteArray) = .ok i c ∧ c.pos = w.length

theorem accepts_iff {w : List UInt8} {i : Instruction} :
    Accepts w i ↔ ∃ x, Spells w x ∧ i = x.place 0 0 w.length := by
  constructor
  · rintro ⟨c, decoded, consumed⟩
    obtain ⟨-, -, x, spells, eq⟩ := spells_take_of_decode decoded
    rw [consumed] at spells eq
    rw [List.take_length] at spells
    exact ⟨x, spells, eq⟩
  · rintro ⟨x, spells, rfl⟩
    have sees : (Cursor.start w.toByteArray).Sees w :=
      ⟨Nat.zero_le _, [], by rw [Cursor.rest_start, List.append_nil]⟩
    exact ⟨_, decode_of_spells spells sees 0, Nat.zero_add _⟩

/-- Of two instructions that stand at one place, neither continues the other. -/
theorem Spells.eq_of_append {w w' more more' : List UInt8} {x x' : Content} (h : Spells w x)
    (h' : Spells w' x') (eq : w ++ more = w' ++ more') : w = w' ∧ more = more' := by
  -- decoded from where both stand, each of them gives the position behind it
  have sees := Cursor.sees_behind .empty .empty (w ++ more)
  have sees' := sees
  rw [eq] at sees'
  have decoded := decode_of_spells h (Cursor.sees_append.mp sees).1 0
  rw [eq, decode_of_spells h' (Cursor.sees_append.mp sees').1 0] at decoded
  injection decoded with _ after
  have length := congrArg Cursor.pos after
  simp only [Cursor.pos_advance] at length
  exact List.append_inj eq (by omega)

end DalvikCode.Instruction

namespace DalvikCode.InstructionStream

open Instruction Traversal

/-! ## 2. Cuts -/

/-- The chunks `ws` make up some bytes, and each of them is an instruction on its own. -/
def CutInto (bytes : List UInt8) (ws : List (List UInt8)) : Prop :=
  ws.flatten = bytes ∧ ∀ w ∈ ws, ∃ i, Accepts w i

/-- Bytes can be cut in one way only. -/
theorem CutInto.unique {bytes : List UInt8} {ws ws' : List (List UInt8)} (h : CutInto bytes ws)
    (h' : CutInto bytes ws') : ws = ws' := by
  obtain ⟨rfl, each⟩ := h
  obtain ⟨flat, each'⟩ := h'
  -- no chunk is empty, so neither cut can end before the other
  have nonempty {w : List UInt8} (h : ∃ i, Accepts w i) : w ≠ [] := by
    rintro rfl
    obtain ⟨i, accepts⟩ := h
    obtain ⟨x, spells, -⟩ := accepts_iff.mp accepts
    exact absurd spells.two_le_length (by decide)
  induction ws generalizing ws' with
  | nil =>
    cases ws' with
    | nil => rfl
    | cons w' ws' =>
      exact absurd (List.append_eq_nil_iff.mp flat).1 (nonempty (each' w' (List.mem_cons_self)))
  | cons w ws ih =>
    cases ws' with
    | nil =>
      exact absurd (List.append_eq_nil_iff.mp flat.symm).1 (nonempty (each w (List.mem_cons_self)))
    | cons w' ws' =>
      obtain ⟨i, accepts⟩ := each w (List.mem_cons_self)
      obtain ⟨i', accepts'⟩ := each' w' (List.mem_cons_self)
      obtain ⟨x, spells, -⟩ := accepts_iff.mp accepts
      obtain ⟨x', spells', -⟩ := accepts_iff.mp accepts'
      obtain ⟨rfl, rest⟩ := spells'.eq_of_append spells flat
      rw [ih (fun v hv => each v (List.mem_cons_of_mem _ hv)) rest
        fun v hv => each' v (List.mem_cons_of_mem _ hv)]

/-! ## 3. Walks along a cut -/

/-- The instruction says what `w` says on its own, and has its size. -/
def DecodedAs (i : Instruction) (w : List UInt8) : Prop :=
  ∃ j, Accepts w j ∧ i.content = j.content ∧ i.size = j.size

theorem accepts_of_decodedAs {is : List Instruction} {ws : List (List UInt8)}
    (h : List.Forall₂ DecodedAs is ws) : ∀ w ∈ ws, ∃ i, Accepts w i := by
  induction h with
  | nil =>
    intro w hw
    cases hw
  | cons first _ ih =>
    intro w hw
    rcases List.mem_cons.mp hw with rfl | hw
    · obtain ⟨j, accepts, -⟩ := first
      exact ⟨j, accepts⟩
    · exact ih w hw

section
variable {s : InstructionStream} (standard : s.decoder = Instruction.decode)
include standard

-- A walk that gets to its end has cut the bytes that it passed.
theorem cut_of_runFrom (offset : Nat) (done : Array Instruction) :
    (s.runFrom s.view offset done).1.failure? = none → offset ≤ s.stop →
    offset < s.stop ∨ offset ≤ s.image.size →
    ∃ is ws, (s.runFrom s.view offset done).1.items.toList = done.toList ++ is ∧
      List.Forall₂ DecodedAs is ws ∧ (⟨s.image, offset⟩ : Cursor).Sees ws.flatten ∧
      offset + ws.flatten.length = s.stop ∧
      (s.runFrom s.view offset done).2.position = s.stop := by
  -- along the walk: the bytes that a step passes are the first chunk of what is left
  fun_induction runFrom s s.view offset done with
  | case1 offset done inside d decoded ih =>
    intro complete _ _
    obtain ⟨w, x, spells, sees, within, instruction_eq, next_eq⟩ :=
      (decodeAt_eq_ok_iff standard).mp decoded
    have fits : d.next ≤ s.image.size := by rw [next_eq]; exact sees.add_length_le
    obtain ⟨is, ws, items, each, sees_ws, length, position⟩ := ih complete d.next_le (.inr fits)
    refine ⟨d.instruction :: is, w :: ws, ?_, .cons ?_ each, ?_, ?_, position⟩
    · rw [items, Array.toList_push, List.append_assoc, List.singleton_append]
    · rw [instruction_eq]
      exact ⟨_, accepts_iff.mpr ⟨x, spells, rfl⟩, rfl, rfl⟩
    · rw [next_eq] at sees_ws
      rw [List.flatten_cons, Cursor.sees_append]
      exact ⟨sees, sees_ws⟩
    · rw [List.flatten_cons, List.length_append, ← Nat.add_assoc, ← next_eq]
      exact length
  | case2 =>
    intro complete
    cases complete
  | case3 offset done outside =>
    intro _ le pos_le
    have ended : offset = s.stop := Nat.le_antisymm le (Nat.not_lt.mp outside)
    exact ⟨[], [], (List.append_nil _).symm, .nil, Cursor.sees_nil (pos_le.resolve_left outside),
      ended, ended⟩

-- A walk gets to its end along a cut.
theorem runFrom_of_cut (ws : List (List UInt8)) (offset : Nat) (done : Array Instruction)
    (each : ∀ w ∈ ws, ∃ i, Accepts w i) (sees : (⟨s.image, offset⟩ : Cursor).Sees ws.flatten)
    (length : offset + ws.flatten.length = s.stop) :
    (s.runFrom s.view offset done).1.failure? = none := by
  induction ws generalizing offset done with
  | nil =>
    have outside : ¬ offset < s.stop := by
      rw [List.flatten_nil, List.length_nil] at length
      omega
    rw [runFrom, if_neg outside]
  | cons w ws ih =>
    obtain ⟨i, accepts⟩ := each w List.mem_cons_self
    obtain ⟨x, spells, -⟩ := accepts_iff.mp accepts
    have two_le := spells.two_le_length
    rw [List.flatten_cons, Cursor.sees_append] at sees
    rw [List.flatten_cons, List.length_append] at length
    -- a chunk ends in the stream, since the other chunks follow it there
    have within : offset + w.length ≤ s.stop := by omega
    have progress : offset < offset + w.length := by omega
    have decoded : s.decodeAt s.view offset =
        .ok ⟨x.place offset (s.addressAt offset) w.length, offset + w.length, progress, within⟩ :=
      (decodeAt_eq_ok_iff standard).mpr ⟨w, x, spells, sees.1, within, rfl, rfl⟩
    have inside : offset < s.stop := by omega
    rw [runFrom, if_pos inside, decoded]
    exact ih _ _ (fun v hv => each v (List.mem_cons_of_mem _ hv)) sees.2
      (by rw [← Nat.add_assoc] at length; exact length)

end

/-! ## 4. Streams -/

theorem toArray_eq_ok_iff (s : InstructionStream) (is : Array Instruction) :
    s.toArray = .ok is ↔ s.run.1.failure? = none ∧ s.run.1.items = is := by
  rw [toArray, Trace.toExcept]
  cases s.run.1.failure? with
  | none => simp only [Except.ok.injEq, true_and]
  | some e => simp only [reduceCtorEq, false_and]

/-- A stream is accepted exactly if it lies in the image and its bytes can be cut into instructions.
There is at most one such cut; the instructions found are its chunks in order, and walking to them
one by one ends at the end of the stream. -/
theorem toArray_ok_iff_cut (image : ByteArray) (start stop : Nat) (nonempty : start < stop) :
    let s : InstructionStream := { image, start, stop }
    let bytes := (image.extract start stop).data.toList
    ((∃ is, s.toArray = .ok is) ↔ stop ≤ image.size ∧ ∃ ws, ws ≠ [] ∧ CutInto bytes ws) ∧
      (∀ ws ws', CutInto bytes ws → CutInto bytes ws' → ws = ws') ∧
      ∀ is ws, s.toArray = .ok is → CutInto bytes ws →
        List.Forall₂ DecodedAs is.toList ws ∧ is.size = ws.length ∧
          ∃ t, Yields s.traversal (is.toList.map .ok) t ∧ t.position = stop := by
  intro s bytes
  have le := Nat.le_of_lt nonempty
  -- what a walk to the end has found
  have walked (is : Array Instruction) (ok : s.toArray = .ok is) : stop ≤ image.size ∧
      ∃ ws, CutInto bytes ws ∧ List.Forall₂ DecodedAs is.toList ws ∧ s.run.2.position = stop := by
    obtain ⟨complete, rfl⟩ := (s.toArray_eq_ok_iff is).mp ok
    obtain ⟨is, ws, items, each, sees, length, position⟩ :=
      cut_of_runFrom (s := s) rfl start #[] complete le (.inl nonempty)
    have bounded : stop ≤ image.size := by
      rw [show stop = start + ws.flatten.length from length.symm]
      exact sees.add_length_le
    have flat := (Cursor.sees_and_length_iff le bounded).mp ⟨sees, length⟩
    exact ⟨bounded, ws, ⟨flat, accepts_of_decodedAs each⟩, by rw [run, items]; exact each, position⟩
  refine ⟨⟨?_, ?_⟩, fun ws ws' cut cut' => cut.unique cut', ?_⟩
  · rintro ⟨is, ok⟩
    obtain ⟨bounded, ws, cut, -⟩ := walked is ok
    refine ⟨bounded, ws, ?_, cut⟩
    rintro rfl
    have length : bytes.length = stop - start := by
      rw [Array.length_toList, ByteArray.size_data, ByteArray.size_extract, Nat.min_eq_left bounded]
    rw [← cut.1, List.flatten_nil, List.length_nil] at length
    omega
  · rintro ⟨bounded, ws, -, flat, each⟩
    obtain ⟨sees, length⟩ := (Cursor.sees_and_length_iff le bounded).mpr flat
    exact ⟨_, (s.toArray_eq_ok_iff _).mpr ⟨runFrom_of_cut rfl ws start #[] each sees length, rfl⟩⟩
  · intro is ws ok cut
    obtain ⟨-, ws', cut', each, position⟩ := walked is ok
    obtain rfl := cut'.unique cut
    obtain ⟨complete, rfl⟩ := (s.toArray_eq_ok_iff is).mp ok
    refine ⟨each, each.length_eq, s.run.2, ?_, position⟩
    have yields := s.yields_run
    rw [Trace.results, complete, Array.toList_append, Array.toList_map] at yields
    exact List.append_nil (s.run.1.items.toList.map Except.ok) ▸ yields

/-- A no-operation, an array of one byte with its fill byte, and a return, behind a byte that is not
in the stream. -/
theorem toArray_ok_of_three_chunks : (1 < 15) ∧ ∃ is,
    ({ image := ⟨#[0xff, 0x00, 0x00, 0x00, 0x03, 0x01, 0x00, 0x01, 0x00, 0x00, 0x00, 0xaa, 0x00,
      0x0e, 0x00]⟩, start := 1, stop := 15 } : InstructionStream).toArray = .ok is := by
  refine ⟨by decide, (toArray_ok_iff_cut _ 1 15 (by decide)).1.mpr ⟨by decide,
    [[0x00, 0x00], [0x00, 0x03, 0x01, 0x00, 0x01, 0x00, 0x00, 0x00, 0xaa, 0x00], [0x0e, 0x00]],
    List.cons_ne_nil _ _, rfl, ?_⟩⟩
  intro w hw
  rcases List.mem_cons.mp hw with rfl | hw
  · exact ⟨_, _, rfl, rfl⟩
  rcases List.mem_cons.mp hw with rfl | hw
  · exact ⟨_, _, rfl, rfl⟩
  · obtain rfl := List.mem_singleton.mp hw
    exact ⟨_, _, rfl, rfl⟩

end DalvikCode.InstructionStream
