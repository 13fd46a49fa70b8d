import DalvikCode.Proofs.Reading

/-!
# Readers in front of the same bytes

Two images that agree on a range give the same fields there.  A reader that *looks ahead* sees
nothing but the bytes from its cursor on: in front of the same bytes it comes to the same result, and
if that is a success, it stands in front of the same bytes again.  This passes through `>>=`, so it
is proved for a reader along its definition.
-/

namespace DalvikCode

/-! ## 1. Images that agree -/

namespace Bytes

/-- Both images hold the bytes from `start` to `stop`, and these are the same. -/
structure SameOn (data data' : ByteArray) (start stop : Nat) : Prop where
  le_size : stop ≤ data.size
  le_size' : stop ≤ data'.size
  extract_eq : data.extract start stop = data'.extract start stop

section
variable {data data' : ByteArray} {start stop : Nat}

theorem SameOn.mono (same : SameOn data data' start stop) {i j : Nat} (start_le : start ≤ i)
    (le : i ≤ j) (le_stop : j ≤ stop) : SameOn data data' i j where
  le_size := Nat.le_trans le_stop same.le_size
  le_size' := Nat.le_trans le_stop same.le_size'
  extract_eq := by
    have inner (image : ByteArray) :
        image.extract i j = (image.extract start stop).extract (i - start) (j - start) := by
      rw [ByteArray.extract_extract, Nat.add_sub_cancel' start_le,
        Nat.add_sub_cancel' (Nat.le_trans start_le le), Nat.min_eq_left le_stop]
    rw [inner data, inner data', same.extract_eq]

theorem SameOn.rest_take (same : SameOn data data' start stop) :
    (⟨data', start⟩ : Cursor).rest.take (stop - start) =
      (⟨data, start⟩ : Cursor).rest.take (stop - start) := by
  rw [← Cursor.toList_extract, ← Cursor.toList_extract, same.extract_eq]

theorem SameOn.numberAt_eq {offset width : Nat} (same : SameOn data data' offset (offset + width)) :
    numberAt data' offset width = numberAt data offset width := by
  have sees := (Cursor.sees_and_length_iff (Nat.le_add_right offset width) same.le_size).mpr rfl
  have sees' := (Cursor.sees_and_length_iff (Nat.le_add_right offset width) same.le_size').mpr
    (congrArg (fun bytes : ByteArray => bytes.data.toList) same.extract_eq)
  have length := Nat.add_left_cancel sees.2
  rw [numberAt_of_sees length sees.1, numberAt_of_sees length sees'.1]

theorem SameOn.u16At_eq {offset : Nat} (same : SameOn data data' offset (offset + 2)) :
    u16At data' offset = u16At data offset := by
  rw [u16At, u16At, same.numberAt_eq]

theorem SameOn.smallAt_eq {offset : Nat} (same : SameOn data data' offset (offset + 4)) :
    smallAt data' offset = smallAt data offset := by
  rw [smallAt, smallAt, same.numberAt_eq]

end

end Bytes

/-! ## 2. Cursors in front of the same bytes -/

namespace Cursor

/-- Two cursors stand at one position, in front of the same bytes. -/
structure Alike (c c' : Cursor) : Prop where
  pos_eq : c'.pos = c.pos
  size_eq : c'.data.size = c.data.size
  rest_eq : c'.rest = c.rest

variable {c c' : Cursor}

theorem Alike.advance (h : c.Alike c') (n : Nat) : (c.advance n).Alike (c'.advance n) where
  pos_eq := congrArg (· + n) h.pos_eq
  size_eq := h.size_eq
  rest_eq := by rw [rest_advance, rest_advance, h.rest_eq]

theorem Alike.sees (h : c.Alike c') {bs : List UInt8} (sees : c.Sees bs) : c'.Sees bs := by
  obtain ⟨pos_le, more, eq⟩ := sees
  exact ⟨by rw [h.pos_eq, h.size_eq]; exact pos_le, more, h.rest_eq.trans eq⟩

end Cursor

/-! ## 3. Readers that look ahead -/

/-- Two results are the same, and of successes the cursors stand in front of the same bytes. -/
inductive AlikeResults {α : Type} :
    EStateM.Result DecodeError Cursor α → EStateM.Result DecodeError Cursor α → Prop where
  | ok {c c' : Cursor} (v : α) (alike : c.Alike c') : AlikeResults (.ok v c) (.ok v c')
  | error {c c' : Cursor} (e : DecodeError) : AlikeResults (.error e c) (.error e c')

/-- In front of the same bytes a reader comes to the same result. -/
def LooksAhead {α : Type} (r : Reader α) : Prop :=
  ∀ c c' : Cursor, c.Alike c' → AlikeResults (r c) (r c')

namespace LooksAhead

variable {α β : Type}

theorem pure (v : α) : LooksAhead (Pure.pure v : Reader α) := fun _ _ alike => .ok v alike

theorem throw (e : DecodeError) : LooksAhead (MonadExcept.throw e : Reader α) :=
  fun _ _ _ => .error e

theorem bind {r : Reader α} {f : α → Reader β} (first : LooksAhead r)
    (second : ∀ a, LooksAhead (f a)) : LooksAhead (r >>= f) := by
  intro c c' alike
  have same := first c c' alike
  generalize read : r c = x, read' : r c' = x' at same
  cases same with
  | ok a alike =>
    rw [Reader.bind_of_ok read, Reader.bind_of_ok read']
    exact second a _ _ alike
  | error e =>
    rw [Reader.bind_of_error read, Reader.bind_of_error read']
    exact .error e

theorem position : LooksAhead Reader.position := by
  intro c c' alike
  rw [Reader.position, Reader.position, alike.pos_eq]
  exact .ok c.pos alike

-- Where there are enough bytes for one cursor, there are the same for the other.
theorem takesAtOnce {r : Reader α} {n : Nat} {f : List UInt8 → α} (h : TakesAtOnce r n f) :
    LooksAhead r := by
  intro c c' alike
  rcases h.ok_or_short c with ⟨bs, length, sees, taken⟩ | ⟨lt, failed⟩
  · rw [taken, h.whole c' bs length (alike.sees sees)]
    exact .ok _ (alike.advance n)
  · rw [failed, h.short c' (by rw [alike.pos_eq, alike.size_eq]; exact lt)]
    exact .error _

theorem number (width : Nat) : LooksAhead (Reader.number width) := takesAtOnce (.number width)

theorem closed : Closed fun r => ∀ place, LooksAhead (r place) where
  pure v _ := pure v
  throw _ _ := throw _
  bind first second place := (first place).bind fun a => second a place
  takesAtOnce takes _ := takesAtOnce takes

end LooksAhead

end DalvikCode
