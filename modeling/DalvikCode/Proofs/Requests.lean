import Mathlib
import DalvikCode.Proofs.Instruction.Decoding
import DalvikCode.Proofs.Leb128.Signed
import DalvikCode.Proofs.Leb128.Unsigned

/-!
# Requests in a row

A cursor may be asked for anything at any time, also after a failure.  Whatever it has been asked
for, it stands in its data, which stays the same.  What a failed request leaves behind is the cursor
as it was, or one that stands behind the bytes that have been read.
-/

namespace DalvikCode

/-! ## 1. Where a reader leaves the cursor -/

/-- The cursor that a reader leaves behind, whether it succeeds or fails. -/
def Reader.after {α : Type} (r : Reader α) (c : Cursor) : Cursor :=
  match r c with
  | .ok _ c' => c'
  | .error _ c' => c'

namespace Reader

variable {α β : Type} {r : Reader α} {c c' : Cursor}

theorem after_of_ok {v : α} (ok : r c = .ok v c') : r.after c = c' := by rw [after, ok]

theorem after_of_error {e : DecodeError} (failed : r c = .error e c') : r.after c = c' := by
  rw [after, failed]

-- What is made of a result leaves the cursor where it is.
theorem after_bind_pure (r : Reader α) (f : α → β) (c : Cursor) :
    (r >>= fun a => pure (f a)).after c = r.after c := by
  cases read : r c with
  | ok a c' =>
    have ok : (r >>= fun a => pure (f a)) c = .ok (f a) c' := bind_of_ok read
    rw [after_of_ok ok, after_of_ok read]
  | error e c' => rw [after_of_error (bind_of_error read), after_of_error read]

end Reader

-- A reader that takes bytes at once takes all of them or none.
theorem TakesAtOnce.eq_of_error {α : Type} {r : Reader α} {n : Nat} {f : List UInt8 → α}
    (takes : TakesAtOnce r n f) {c c' : Cursor} {e : DecodeError} (failed : r c = .error e c') :
    c' = c := by
  rcases takes.ok_or_short c with ⟨bs, -, -, taken⟩ | ⟨-, short⟩
  · rw [taken] at failed
    cases failed
  · rw [short] at failed
    cases failed
    rfl

/-- The reader goes forward by some of the bytes that follow, also where it fails. -/
def Advances {α : Type} (r : Reader α) : Prop :=
  ∀ c : Cursor, c.pos ≤ c.data.size → ∃ n, c.pos + n ≤ c.data.size ∧ r.after c = c.advance n

namespace Advances

open Reader

variable {α β : Type}

theorem pure (v : α) : Advances (Pure.pure v) := fun _ within => ⟨0, within, rfl⟩

theorem throw (e : DecodeError) : Advances (MonadExcept.throw e : Reader α) :=
  fun _ within => ⟨0, within, rfl⟩

-- What the second reader passes follows what the first one has passed.
theorem bind {r : Reader α} {f : α → Reader β} (first : Advances r)
    (second : ∀ a, Advances (f a)) : Advances (r >>= f) := by
  intro c within
  obtain ⟨m, fits, after_first⟩ := first c within
  cases read : r c with
  | error e c' =>
    rw [after_of_error read] at after_first
    exact ⟨m, fits, by rw [after_of_error (bind_of_error read), after_first]⟩
  | ok a c' =>
    rw [after_of_ok read] at after_first
    subst after_first
    obtain ⟨n, fits', after_second⟩ := second a (c.advance m) fits
    refine ⟨m + n, by rw [← Nat.add_assoc]; exact fits', ?_⟩
    rw [← Cursor.advance_advance, ← after_second, after, bind_of_ok read, after]

theorem takesAtOnce {r : Reader α} {n : Nat} {f : List UInt8 → α} (takes : TakesAtOnce r n f) :
    Advances r := by
  intro c within
  rcases takes.ok_or_short c with ⟨bs, length, sees, taken⟩ | ⟨-, short⟩
  · exact ⟨n, length ▸ sees.add_length_le, after_of_ok taken⟩
  · exact ⟨0, within, after_of_error short⟩

theorem closed : Closed fun r => ∀ place, Advances (r place) where
  pure v _ := pure v
  throw _ _ := throw _
  bind first second place := (first place).bind fun a => second a place
  takesAtOnce takes _ := takesAtOnce takes

theorem decode (address : UInt32) : Advances (Instruction.decode address) := by
  intro c within
  obtain ⟨n, fits, after_content⟩ := Instruction.closed_readContent closed c.pos c within
  refine ⟨n, fits, ?_⟩
  rw [← after_content, after, after, Instruction.decode_eq]
  cases Instruction.readContent c.pos c <;> rfl

end Advances

/-! ## 2. Alignment -/

-- With the padding, a position is the least multiple that is not below it.
theorem isLeast_align {n pos : Nat} (positive : 0 < n) :
    IsLeast {m | n ∣ m ∧ pos ≤ m} (pos + (n - pos % n) % n) := by
  have lt := Nat.mod_lt pos positive
  have split := Nat.div_add_mod pos n
  by_cases aligned : pos % n = 0
  · rw [aligned, Nat.sub_zero, Nat.mod_self, Nat.add_zero]
    exact ⟨⟨Nat.dvd_of_mod_eq_zero aligned, Nat.le_refl pos⟩, fun m h => h.2⟩
  · have padding : (n - pos % n) % n = n - pos % n := Nat.mod_eq_of_lt (by omega)
    have stop : pos + (n - pos % n) = n * (pos / n + 1) := by
      rw [Nat.mul_succ]
      omega
    rw [padding, stop]
    constructor
    · exact ⟨Nat.dvd_mul_right n _, by rw [← stop]; omega⟩
    · intro m ⟨multiple, le⟩
      obtain ⟨k, rfl⟩ := multiple
      have ne : pos ≠ n * k := by
        rintro rfl
        exact aligned (Nat.mul_mod_right n k)
      have below : pos / n < k := by
        rw [Nat.div_lt_iff_lt_mul positive, Nat.mul_comm]
        omega
      exact Nat.mul_le_mul_left n below

/-! ## 3. LEB128 numbers -/

namespace Leb128

open Reader

/-- The bytes that are read of a number: up to its last group, but no more than five, and no more
than there are. -/
structure Scans (c : Cursor) (bs : List UInt8) : Prop where
  sees : c.Sees bs
  length_le : bs.length ≤ 5
  ends : IsEncoding bs ∨ Unfinished bs ∧ (bs.length = 5 ∨ bs = c.rest)

section
variable {c : Cursor} (within : c.pos ≤ c.data.size)
include within

-- Where the data ends inside of a number, all that is left of it is read.
theorem scans_rest (unfinished : Unfinished c.rest) (few : c.rest.length < 5) :
    Scans c c.rest ∧ (⟨c.data, c.data.size⟩ : Cursor) = c.advance c.rest.length := by
  have sees : c.Sees c.rest := ⟨within, [], (List.append_nil _).symm⟩
  refine ⟨⟨sees, Nat.le_of_lt few, .inr ⟨unfinished, .inr rfl⟩⟩, ?_⟩
  rw [Cursor.advance, Cursor.length_rest, Nat.add_sub_cancel' within]

theorem exists_scans_unsigned : ∃ bs, Scans c bs ∧ unsigned.after c = c.advance bs.length := by
  rcases bounded_or_overflows within with ⟨bs, sees, bounded⟩ | ⟨bs, sees, overflows⟩ |
    ⟨unfinished, few⟩
  · obtain ⟨n, ok, -⟩ := unsigned_of_bounded sees bounded
    exact ⟨bs, ⟨sees, bounded.length_le, .inl bounded.encoding⟩, after_of_ok ok⟩
  · obtain ⟨what, failed⟩ := unsigned_of_overflows sees overflows
    obtain ⟨four, fifth, rfl, four_length, unfinished, -⟩ := overflows
    have length : (four ++ [fifth]).length = 5 := by
      rw [List.length_append, four_length, List.length_singleton]
    refine ⟨_, ⟨sees, Nat.le_of_eq length, ?_⟩, by rw [length]; exact after_of_error failed⟩
    -- the fifth byte may be the last one and still have too many bits
    by_cases continues : Continues fifth
    · refine .inr ⟨List.forall_mem_append.mpr ⟨unfinished, ?_⟩, .inl length⟩
      exact List.forall_mem_singleton.mpr continues
    · exact .inl (isEncoding_concat.mpr ⟨unfinished, Nat.not_le.mp continues⟩)
  · obtain ⟨scans, stop⟩ := scans_rest within unfinished few
    exact ⟨c.rest, scans, stop ▸ after_of_error (unsigned_of_unfinished within unfinished few)⟩

theorem exists_scans_signed : ∃ bs, Scans c bs ∧ signed.after c = c.advance bs.length := by
  rcases groups_under 5 within with ⟨bs, sees, encoding, le⟩ | ⟨bs, sees, unfinished, length⟩ |
    ⟨unfinished, few⟩
  · exact ⟨bs, ⟨sees, le, .inl encoding⟩, after_of_ok (signed_of_sees sees encoding le)⟩
  · refine ⟨bs, ⟨sees, Nat.le_of_eq length, .inr ⟨unfinished, .inl length⟩⟩, ?_⟩
    rw [length]
    exact after_of_error (signed_of_five sees unfinished length)
  · obtain ⟨scans, stop⟩ := scans_rest within unfinished few
    exact ⟨c.rest, scans, stop ▸ after_of_error (signed_of_unfinished within unfinished few)⟩

end

-- The range of a number is only judged behind it.
theorem after_small (c : Cursor) : small.after c = unsigned.after c := by
  cases read : unsigned c with
  | ok n c' =>
    rw [after_of_ok read, after, small_of_ok read]
    by_cases fits : n.toNat < 2 ^ 31
    · rw [if_pos fits]
    · rw [if_neg fits]
  | error e c' => rw [after_of_error read, after_of_error (small_of_error read)]

theorem after_index? (c : Cursor) : index?.after c = unsigned.after c :=
  after_bind_pure unsigned (fun n => if n = 0 then none else some (n - 1)) c

/-- The kinds of LEB128 numbers. -/
inductive Kind where
  | unsigned | small | index | signed
  deriving DecidableEq, Repr

/-- What a number of a kind is read to. -/
def Kind.Answer : Kind → Type
  | .unsigned | .small => UInt32
  | .index => Option UInt32
  | .signed => Int32

def Kind.reader : (kind : Kind) → Reader kind.Answer
  | .unsigned => Leb128.unsigned
  | .small => Leb128.small
  | .index => Leb128.index?
  | .signed => Leb128.signed

/-- Whatever becomes of a number, reading it ends behind the bytes that it passes. -/
theorem Kind.exists_scans (kind : Kind) {c : Cursor} (within : c.pos ≤ c.data.size) :
    ∃ bs, Scans c bs ∧ kind.reader.after c = c.advance bs.length := by
  cases kind with
  | unsigned => exact exists_scans_unsigned within
  | small =>
    obtain ⟨bs, scans, stop⟩ := exists_scans_unsigned within
    exact ⟨bs, scans, (after_small c).trans stop⟩
  | index =>
    obtain ⟨bs, scans, stop⟩ := exists_scans_unsigned within
    exact ⟨bs, scans, (after_index? c).trans stop⟩
  | signed => exact exists_scans_signed within

end Leb128

theorem Advances.leb128 (kind : Leb128.Kind) : Advances kind.reader := by
  intro c within
  obtain ⟨bs, scans, stop⟩ := kind.exists_scans within
  exact ⟨bs.length, scans.sees.add_length_le, stop⟩

/-! ## 4. Requests -/

/-- What a cursor may be asked for. -/
inductive Request where
  | seek (pos : Nat)
  | skip (n : Nat)
  | align (n : Nat) (positive : 0 < n)
  | peek (s : Scalar)
  | scalar (s : Scalar)
  | leb128 (kind : Leb128.Kind)
  | decode (address : UInt32)

namespace Request

def Answer : Request → Type
  | seek _ | skip _ | align .. => Unit
  | peek _ | scalar _ => Int
  | leb128 kind => kind.Answer
  | decode _ => Instruction

def reader : (q : Request) → Reader q.Answer
  | seek pos => Reader.seek pos
  | skip n => Reader.skip n
  | align n _ => Reader.align n
  | peek s => Reader.peek s
  | scalar s => Reader.scalar s
  | leb128 kind => kind.reader
  | decode address => Instruction.decode address

/-- Whether a request is granted as a whole or not at all. -/
def isAtomic : Request → Bool
  | seek _ | skip _ | align .. | peek _ | scalar _ => true
  | leb128 _ | decode _ => false

/-! ## 5. One request -/

open Reader

variable {c : Cursor}

theorem after_peek (s : Scalar) (c : Cursor) : (Reader.peek s).after c = c := by
  unfold after Reader.peek
  cases Reader.scalar s c <;> rfl

theorem after_seek (pos : Nat) (c : Cursor) :
    (Reader.seek pos).after c = if pos < c.data.size then { c with pos } else c := by
  unfold after Reader.seek
  by_cases inside : pos < c.data.size
  · simp only [if_pos inside]
  · simp only [if_neg inside]

-- Every request but one only goes forward.
theorem advances {q : Request} (no_seek : ∀ pos, q ≠ seek pos) : Advances q.reader := by
  cases q with
  | seek pos => exact absurd rfl (no_seek pos)
  | skip n => exact .takesAtOnce (.skip n)
  | align n positive => exact fun c => Advances.takesAtOnce (.skip ((n - c.pos % n) % n)) c
  | peek s => exact fun c within => ⟨0, within, after_peek s c⟩
  | scalar s => exact Advances.closed.scalar s 0
  | leb128 kind => exact .leb128 kind
  | decode address => exact .decode address

/-- A request leaves the data as it is and the cursor in the data. -/
theorem after_inside (q : Request) (within : c.pos ≤ c.data.size) :
    (q.reader.after c).data = c.data ∧ (q.reader.after c).pos ≤ c.data.size := by
  by_cases seeks : ∃ pos, q = seek pos
  · obtain ⟨pos, rfl⟩ := seeks
    show ((Reader.seek pos).after c).data = _ ∧ ((Reader.seek pos).after c).pos ≤ _
    rw [after_seek]
    split
    · next inside => exact ⟨rfl, Nat.le_of_lt inside⟩
    · exact ⟨rfl, within⟩
  · obtain ⟨n, fits, stop⟩ := advances (not_exists.mp seeks) c within
    rw [stop]
    exact ⟨rfl, fits⟩

-- A request that is refused as a whole has moved nothing.
theorem eq_of_error {q : Request} (atomic : q.isAtomic = true) {c' : Cursor} {e : DecodeError}
    (failed : q.reader c = .error e c') : c' = c := by
  cases q with
  | seek pos =>
    change Reader.seek pos c = .error e c' at failed
    unfold Reader.seek at failed
    split at failed
    · cases failed
    · cases failed
      rfl
  | skip n => exact (TakesAtOnce.skip n).eq_of_error failed
  | align n positive => exact (TakesAtOnce.skip ((n - c.pos % n) % n)).eq_of_error failed
  | peek s => exact (after_of_error failed).symm.trans (after_peek s c)
  | scalar s =>
    change (s.value <$> Reader.number s.width) c = .error e c' at failed
    rw [map_eq_pure_bind] at failed
    rcases bind_eq_error.mp failed with failed | ⟨n, c'', -, failed⟩
    · exact (TakesAtOnce.number s.width).eq_of_error failed
    · cases failed
  | leb128 kind => cases atomic
  | decode address => cases atomic

/-- A cursor is aligned exactly if there is room up to the next multiple. -/
theorem exists_align {n : Nat} (positive : 0 < n) (c : Cursor) :
    ∃ stop, IsLeast {m | n ∣ m ∧ c.pos ≤ m} stop ∧
      Reader.align n c =
        if stop ≤ c.data.size then .ok () ⟨c.data, stop⟩ else .error .outOfBounds c :=
  ⟨_, isLeast_align positive, rfl⟩

end Request

/-! ## 6. Requests in a row -/

namespace Cursor

/-- The cursor after some requests, of which some may have failed. -/
def afterAll (c : Cursor) (done : List Request) : Cursor :=
  done.foldl (fun c q => q.reader.after c) c

-- The invariant of a cursor that is passed on from one request to the next.
theorem afterAll_inside {c : Cursor} (within : c.pos ≤ c.data.size) (done : List Request) :
    (c.afterAll done).data = c.data ∧ (c.afterAll done).pos ≤ c.data.size := by
  induction done generalizing c with
  | nil => exact ⟨rfl, within⟩
  | cons q done ih =>
    obtain ⟨same, inside⟩ := q.after_inside within
    rw [← same] at inside
    obtain ⟨same', inside'⟩ := ih inside
    exact ⟨same'.trans same, same ▸ inside'⟩

/-- The cursor stands in the data, and so does whatever the next request makes of it.  Failures
leave it where it was, but for those of numbers of several bytes, which leave it behind the bytes
that have been read, and of instructions. -/
structure Sound (c : Cursor) (data : ByteArray) : Prop where
  data_eq : c.data = data
  pos_le : c.pos ≤ data.size
  stays : ∀ (q : Request) (e : DecodeError) (c' : Cursor), q.isAtomic = true →
    q.reader c = .error e c' → c' = c
  peeks : ∀ s : Scalar, (Reader.peek s).after c = c
  aligns : ∀ n, 0 < n → ∃ stop, IsLeast {m | n ∣ m ∧ c.pos ≤ m} stop ∧
    Reader.align n c = if stop ≤ data.size then .ok () ⟨data, stop⟩ else .error .outOfBounds c
  scans : ∀ kind : Leb128.Kind, ∃ bs, Leb128.Scans c bs ∧
    kind.reader.after c = c.advance bs.length
  advances : ∀ q : Request, (∀ pos, q ≠ .seek pos) → c.pos ≤ (q.reader.after c).pos

theorem sound {c : Cursor} (within : c.pos ≤ c.data.size) : c.Sound c.data where
  data_eq := rfl
  pos_le := within
  stays _ _ _ atomic := Request.eq_of_error atomic
  peeks s := Request.after_peek s c
  aligns _ positive := Request.exists_align positive c
  scans kind := kind.exists_scans within
  advances q no_seek := by
    obtain ⟨n, -, stop⟩ := Request.advances no_seek c within
    rw [stop]
    exact Nat.le_add_right c.pos n

-- A cursor is made at the start of the data, or at a position that is looked up in it.
theorem within_of_starts {data : ByteArray} {first : Cursor}
    (starts : first = .start data ∨ ∃ pos, Cursor.at? data pos = .ok first) :
    first.data = data ∧ first.pos ≤ data.size := by
  rcases starts with rfl | ⟨pos, put⟩
  · exact ⟨rfl, Nat.zero_le _⟩
  · unfold Cursor.at? at put
    split at put
    · next le =>
      cases put
      exact ⟨rfl, le⟩
    · cases put

theorem sound_afterAll {c : Cursor} (within : c.pos ≤ c.data.size) (done : List Request) :
    (c.afterAll done).Sound c.data := by
  obtain ⟨same, inside⟩ := afterAll_inside within done
  rw [← same] at inside ⊢
  exact sound inside

end Cursor

end DalvikCode
