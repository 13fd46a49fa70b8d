import DalvikCode.Proofs.Reading

/-!
# Readers that run out of bytes

A reader in front of some bytes gets by with them or runs out of them.  If it gets by, it does not
matter what follows the data.  If it runs out, the bytes that are present do not settle what it
comes to: behind other data it reads on past the old end.  One of the two holds wherever a reader
starts.  This passes through `>>=`, so it is proved for a reader along its definition.
-/

namespace DalvikCode

/-! ## 1. Data that goes on -/

/-- The cursor at the same place, where more data follows. -/
def Cursor.followedBy (c : Cursor) (more : ByteArray) : Cursor := { c with data := c.data ++ more }

namespace Cursor

variable (c : Cursor) (more : ByteArray)

@[simp] theorem pos_followedBy : (c.followedBy more).pos = c.pos := rfl

@[simp] theorem size_followedBy : (c.followedBy more).data.size = c.data.size + more.size :=
  ByteArray.size_append

@[simp] theorem followedBy_empty : c.followedBy .empty = c := by
  unfold followedBy
  rw [ByteArray.append_empty]

theorem followedBy_followedBy (more' : ByteArray) :
    (c.followedBy more).followedBy more' = c.followedBy (more ++ more') := by
  unfold followedBy
  simp only [ByteArray.append_assoc]

theorem followedBy_advance (n : Nat) :
    (c.followedBy more).advance n = (c.advance n).followedBy more := rfl

-- What a cursor sees it sees as well if more data follows.
theorem Sees.followedBy {c : Cursor} {bs : List UInt8} (h : c.Sees bs) (more : ByteArray) :
    (c.followedBy more).Sees bs := by
  have pos_le := h.pos_le
  obtain ⟨-, behind, eq⟩ := h
  constructor
  · simp only [pos_followedBy, size_followedBy]
    omega
  · have inside : c.pos ≤ c.data.data.toList.length := by
      simpa only [Array.length_toList, ByteArray.size_data] using pos_le
    unfold rest at eq
    exists behind ++ more.data.toList
    unfold rest Cursor.followedBy
    simp only [ByteArray.data_append, Array.toList_append, List.drop_append_of_le_length inside, eq,
      List.append_assoc]

end Cursor

/-! ## 2. The two outcomes -/

/-- The result of a reader that comes to `x` and ends at `c`. -/
def Reader.outcome {α : Type} (x : Except DecodeError α) (c : Cursor) :
    EStateM.Result DecodeError Cursor α :=
  match x with
  | .ok v => .ok v c
  | .error e => .error e c

/-- From `c` on the reader gets by with the next `n` bytes: whatever follows the data, it comes to
`x` behind these bytes. -/
structure Settles {α : Type} (r : Reader α) (c : Cursor) (x : Except DecodeError α) (n : Nat) :
    Prop where
  fits : c.pos + n ≤ c.data.size
  answers : x ≠ .error .outOfBounds
  eq_outcome : ∀ more, r (c.followedBy more) = Reader.outcome x ((c.followedBy more).advance n)

/-- From `c` on the reader runs out of bytes, and behind some longer data it gets by with more bytes
than were present. -/
structure RunsOut {α : Type} (r : Reader α) (c : Cursor) : Prop where
  short : ∃ c', r c = .error .outOfBounds c'
  goes_on : ∃ more x n, c.data.size < c.pos + n ∧ Settles r (c.followedBy more) x n

/-- Wherever the reader starts, it gets by with the bytes that are present or runs out of them. -/
def Settling {α : Type} (r : Reader α) : Prop :=
  ∀ c : Cursor, c.pos ≤ c.data.size → (∃ x n, Settles r c x n) ∨ RunsOut r c

section
variable {α β : Type} {r : Reader α} {c : Cursor}

theorem Settles.eq_here {x : Except DecodeError α} {n : Nat} (h : Settles r c x n) :
    r c = Reader.outcome x (c.advance n) := by
  have eq := h.eq_outcome .empty
  rwa [Cursor.followedBy_empty] at eq

theorem Settles.followedBy {x : Except DecodeError α} {n : Nat} (h : Settles r c x n)
    (more : ByteArray) : Settles r (c.followedBy more) x n where
  fits := by
    have fits := h.fits
    simp only [Cursor.pos_followedBy, Cursor.size_followedBy]
    omega
  answers := h.answers
  eq_outcome more' := by rw [Cursor.followedBy_followedBy, h.eq_outcome]

-- The bytes that are present settle the outcome, or they do not.
theorem Settles.not_runsOut {x : Except DecodeError α} {n : Nat} (h : Settles r c x n) :
    ¬ RunsOut r c := by
  intro ⟨⟨c', short⟩, _⟩
  rw [h.eq_here] at short
  cases x with
  | ok v => cases short
  | error e =>
    cases short
    exact h.answers rfl

theorem Settles.unique {x y : Except DecodeError α} {n n' : Nat} (h : Settles r c x n)
    (h' : Settles r c y n') : x = y := by
  have same := h.eq_here.symm.trans h'.eq_here
  cases x with
  | ok v =>
    cases y with
    | ok w => exact congrArg Except.ok (EStateM.Result.ok.inj same).1
    | error e => cases same
  | error e =>
    cases y with
    | ok w => cases same
    | error e' => exact congrArg Except.error (EStateM.Result.error.inj same).1

theorem Settles.bind {v : α} {n n' : Nat} {f : α → Reader β} {y : Except DecodeError β}
    (first : Settles r c (.ok v) n) (second : Settles (f v) (c.advance n) y n') :
    Settles (r >>= f) c y (n + n') where
  fits := by
    have fits := second.fits
    simp only [Cursor.pos_advance, Cursor.data_advance] at fits
    omega
  answers := second.answers
  eq_outcome more := by
    rw [Reader.bind_of_ok (first.eq_outcome more), Cursor.followedBy_advance, second.eq_outcome,
      ← Cursor.followedBy_advance, Cursor.advance_advance]

theorem Settles.bind_error {e : DecodeError} {n : Nat} (f : α → Reader β)
    (first : Settles r c (.error e) n) : Settles (r >>= f) c (.error e) n where
  fits := first.fits
  answers := fun eq => first.answers (congrArg Except.error (Except.error.inj eq))
  eq_outcome more := Reader.bind_of_error (first.eq_outcome more)

theorem Settles.bind_runsOut {v : α} {n : Nat} {f : α → Reader β}
    (first : Settles r c (.ok v) n) (second : RunsOut (f v) (c.advance n)) :
    RunsOut (r >>= f) c where
  short := by
    obtain ⟨c', short⟩ := second.short
    exact ⟨c', by rw [Reader.bind_of_ok first.eq_here, short]⟩
  goes_on := by
    obtain ⟨more, y, n', past, settles⟩ := second.goes_on
    rw [← Cursor.followedBy_advance] at settles
    simp only [Cursor.pos_advance, Cursor.data_advance, Nat.add_assoc] at past
    exact ⟨more, y, n + n', past, (first.followedBy more).bind settles⟩

end

/-! ## 3. Composed readers -/

namespace Settling

variable {α β : Type}

theorem pure (v : α) : Settling (Pure.pure v : Reader α) := by
  intro c pos_le
  exact .inl ⟨.ok v, 0, pos_le, nofun, fun _ => rfl⟩

theorem throw {e : DecodeError} (answers : e ≠ .outOfBounds) :
    Settling (MonadExcept.throw e : Reader α) := by
  intro c pos_le
  exact .inl ⟨.error e, 0, pos_le, fun eq => answers (Except.error.inj eq), fun _ => rfl⟩

theorem position : Settling Reader.position := by
  intro c pos_le
  exact .inl ⟨.ok c.pos, 0, pos_le, nofun, fun _ => rfl⟩

theorem bind {r : Reader α} {f : α → Reader β} (first : Settling r)
    (second : ∀ a, Settling (f a)) : Settling (r >>= f) := by
  intro c pos_le
  rcases first c pos_le with ⟨x, n, settles⟩ | runsOut
  · cases x with
    | error e => exact .inl ⟨.error e, n, settles.bind_error f⟩
    | ok v =>
      rcases second v (c.advance n) settles.fits with ⟨y, n', settles'⟩ | runsOut
      · exact .inl ⟨y, n + n', settles.bind settles'⟩
      · exact .inr (settles.bind_runsOut runsOut)
  · refine .inr ⟨?_, ?_⟩
    · obtain ⟨c', short⟩ := runsOut.short
      exact ⟨c', Reader.bind_of_error short⟩
    -- on longer data the first reader gets by, and the second one with this or still longer data
    · obtain ⟨more, x, n, past, settles⟩ := runsOut.goes_on
      cases x with
      | error e => exact ⟨more, .error e, n, past, settles.bind_error f⟩
      | ok v =>
        rcases second v ((c.followedBy more).advance n) settles.fits with ⟨y, n', settles'⟩ | runsOut
        · exact ⟨more, y, n + n', by omega, settles.bind settles'⟩
        · obtain ⟨more', y, n', past', settles'⟩ := (settles.bind_runsOut runsOut).goes_on
          rw [Cursor.followedBy_followedBy] at settles'
          simp only [Cursor.pos_followedBy, Cursor.size_followedBy] at past'
          exact ⟨more ++ more', y, n', by omega, settles'⟩

theorem takesAtOnce {r : Reader α} {n : Nat} {f : List UInt8 → α} (takes : TakesAtOnce r n f) :
    Settling r := by
  have settles {c : Cursor} (fits : c.pos + n ≤ c.data.size) : ∃ v, Settles r c (.ok v) n := by
    obtain ⟨sees, length⟩ := Cursor.sees_take fits
    exact ⟨_, fits, nofun, fun more => takes.whole _ _ length (sees.followedBy more)⟩
  intro c pos_le
  by_cases fits : c.pos + n ≤ c.data.size
  · obtain ⟨v, settles⟩ := settles fits
    exact .inl ⟨.ok v, n, settles⟩
  · have past : c.data.size < c.pos + n := Nat.not_le.mp fits
    -- `n` more bytes are enough
    have enough : (c.followedBy (List.replicate n 0).toByteArray).pos + n ≤
        (c.followedBy (List.replicate n 0).toByteArray).data.size := by
      simp only [Cursor.pos_followedBy, Cursor.size_followedBy, List.size_toByteArray,
        List.length_replicate]
      omega
    obtain ⟨v, settles⟩ := settles enough
    exact .inr ⟨⟨c, takes.short c past⟩, _, .ok v, n, past, settles⟩

theorem number (width : Nat) : Settling (Reader.number width) := takesAtOnce (.number width)

theorem closed : Closed fun r => ∀ place, Settling (r place) where
  pure v _ := pure v
  throw _ _ := throw nofun
  bind first second place := (first place).bind fun a => second a place
  takesAtOnce takes _ := takesAtOnce takes

end Settling

end DalvikCode
