import DalvikCode.Cursor

/-!
# What a reader reads

Readers are described by the bytes that they consume.  `Reads r v bs` says that `r` reads `v` out of
the bytes `bs`, wherever these stand and whatever follows them.  A reader is *local* if this is all
that its successes are: what it accepts once it accepts wherever the same bytes stand.  Both
properties pass through `>>=`, so they are proved for a reader along its definition.  `Closed` sums
up what a property of readers has to pass through for this.
-/

namespace DalvikCode

/-! ## 1. The bytes under a cursor -/

namespace Bytes

/-- The number that some bytes stand for, least significant byte first. -/
def value : List UInt8 → Nat
  | [] => 0
  | b :: bs => b.toNat + 256 * value bs

theorem getElem?_eq_toList (data : ByteArray) (i : Nat) : data[i]? = data.data.toList[i]? := by
  by_cases h : i < data.size
  · rw [getElem?_pos data i h, List.getElem?_eq_getElem (by simpa using h)]
    rfl
  · rw [getElem?_neg data i h, List.getElem?_eq_none (by simpa using h)]

-- A number in the data is the value of the bytes that stand there.
theorem number_eq_value (data : ByteArray) (offset : Nat) (bs rest : List UInt8)
    (h : data.data.toList.drop offset = bs ++ rest) :
    number data offset bs.length = value bs := by
  -- a number is read along the offset, the list is taken apart at its head
  induction bs generalizing offset with
  | nil => rfl
  | cons b bs ih =>
    have first : data[offset]? = some b := by
      rw [getElem?_eq_toList, ← Nat.add_zero offset, ← List.getElem?_drop, h]
      rfl
    have behind : data.data.toList.drop (offset + 1) = bs ++ rest := by
      rw [← List.drop_drop, h]
      rfl
    rw [List.length_cons, number, value, first, ih (offset + 1) behind]
    rfl

-- Bytes of a number have that number as their value.
theorem value_ofNumber (width n : Nat) (h : n < 256 ^ width) : value (ofNumber width n) = n := by
  induction width generalizing n with
  | zero =>
    rw [Nat.pow_zero] at h
    rw [ofNumber, value]
    omega
  | succ width ih =>
    have rest : n / 256 < 256 ^ width := by
      rw [Nat.div_lt_iff_lt_mul (by decide), ← Nat.pow_succ]
      exact h
    rw [ofNumber, value, ih _ rest, UInt8.toNat_ofNat']
    omega

end Bytes

namespace Cursor

/-- The bytes that follow the cursor. -/
def rest (c : Cursor) : List UInt8 := c.data.data.toList.drop c.pos

/-- The cursor `n` bytes further on. -/
def advance (c : Cursor) (n : Nat) : Cursor := { c with pos := c.pos + n }

@[simp] theorem data_advance (c : Cursor) (n : Nat) : (c.advance n).data = c.data := rfl

@[simp] theorem pos_advance (c : Cursor) (n : Nat) : (c.advance n).pos = c.pos + n := rfl

theorem advance_advance (c : Cursor) (m n : Nat) :
    (c.advance m).advance n = c.advance (m + n) := by
  simp only [advance, Nat.add_assoc]

theorem rest_advance (c : Cursor) (n : Nat) : (c.advance n).rest = c.rest.drop n := by
  simp only [rest, advance, List.drop_drop]

theorem length_rest (c : Cursor) : c.rest.length = c.data.size - c.pos := by
  rw [rest, List.length_drop, Array.length_toList, ByteArray.size_data]

/-- The bytes `bs` follow the cursor. -/
def Sees (c : Cursor) (bs : List UInt8) : Prop :=
  c.pos ≤ c.data.size ∧ ∃ more, c.rest = bs ++ more

theorem Sees.pos_le {c : Cursor} {bs : List UInt8} (h : c.Sees bs) : c.pos ≤ c.data.size := h.1

theorem Sees.add_length_le {c : Cursor} {bs : List UInt8} (h : c.Sees bs) :
    c.pos + bs.length ≤ c.data.size := by
  obtain ⟨pos_le, more, eq⟩ := h
  have length := congrArg List.length eq
  rw [length_rest, List.length_append] at length
  omega

-- What a cursor sees stands in the data behind it.
theorem Sees.getElem?_eq {c : Cursor} {bs : List UInt8} (h : c.Sees bs) {k : Nat}
    (lt : k < bs.length) : c.data[c.pos + k]? = bs[k]? := by
  obtain ⟨-, more, eq⟩ := h
  have behind : c.data.data.toList[c.pos + k]? = c.rest[k]? := List.getElem?_drop.symm
  rw [Bytes.getElem?_eq_toList, behind, eq, List.getElem?_append_left lt]

-- As many bytes as are present can be seen.
theorem sees_take {c : Cursor} {n : Nat} (h : c.pos + n ≤ c.data.size) :
    c.Sees (c.rest.take n) ∧ (c.rest.take n).length = n := by
  refine ⟨⟨by omega, c.rest.drop n, (List.take_append_drop n c.rest).symm⟩, ?_⟩
  rw [List.length_take, length_rest]
  omega

theorem toList_extract (image : ByteArray) (start stop : Nat) :
    (image.extract start stop).data.toList =
      (⟨image, start⟩ : Cursor).rest.take (stop - start) := by
  rw [ByteArray.data_extract, Array.toList_extract, List.extract_eq_take_drop]
  rfl

-- The bytes of a range are what the cursor at its start sees.
theorem sees_and_length_iff {image : ByteArray} {start stop : Nat} {bs : List UInt8}
    (le : start ≤ stop) (bounded : stop ≤ image.size) :
    (⟨image, start⟩ : Cursor).Sees bs ∧ start + bs.length = stop ↔
      bs = (image.extract start stop).data.toList := by
  have fits : (⟨image, start⟩ : Cursor).pos + (stop - start) ≤ image.size := by
    show start + (stop - start) ≤ image.size
    omega
  obtain ⟨sees, length⟩ := sees_take fits
  -- both sides say that `bs` is what the cursor sees first, as far as the range goes
  rw [toList_extract]
  constructor
  · rintro ⟨⟨-, more, eq⟩, rfl⟩
    rw [eq, Nat.add_sub_cancel_left, List.take_left]
  · rintro rfl
    exact ⟨sees, by omega⟩

theorem sees_nil {c : Cursor} (h : c.pos ≤ c.data.size) : c.Sees [] := ⟨h, c.rest, rfl⟩

theorem sees_append {c : Cursor} {xs ys : List UInt8} :
    c.Sees (xs ++ ys) ↔ c.Sees xs ∧ (c.advance xs.length).Sees ys := by
  constructor
  · intro h
    have fits := h.add_length_le
    obtain ⟨pos_le, more, eq⟩ := h
    rw [List.length_append] at fits
    rw [List.append_assoc] at eq
    refine ⟨⟨pos_le, ys ++ more, eq⟩, by simp only [data_advance, pos_advance]; omega, more, ?_⟩
    rw [rest_advance, eq, List.drop_left]
  · rintro ⟨⟨pos_le, more, eq⟩, -, more', eq'⟩
    rw [rest_advance, eq, List.drop_left] at eq'
    exact ⟨pos_le, more', by rw [eq, eq', List.append_assoc]⟩

-- What follows the cursor one after the other stands behind what comes before it.
theorem sees_getElem_of_flatMap {α : Type} {c : Cursor} {xs : List α} {f : α → List UInt8}
    (h : c.Sees (xs.flatMap f)) (i : Nat) (lt : i < xs.length) :
    (c.advance ((xs.take i).flatMap f).length).Sees (f xs[i]) := by
  have split : xs.flatMap f =
      (xs.take i).flatMap f ++ (f xs[i] ++ (xs.drop (i + 1)).flatMap f) := by
    rw [← List.flatMap_cons, ← List.drop_eq_getElem_cons lt, ← List.flatMap_append,
      List.take_append_drop]
  rw [split] at h
  exact (sees_append.mp (sees_append.mp h).2).1

-- Behind the bytes of `pre`, the cursor sees what was put there.
theorem sees_behind (pre post : ByteArray) (bs : List UInt8) :
    (⟨pre ++ bs.toByteArray ++ post, pre.size⟩ : Cursor).Sees bs := by
  refine ⟨?_, post.data.toList, ?_⟩
  · simp only [ByteArray.size_append]
    omega
  · have split : (pre ++ bs.toByteArray ++ post).data.toList =
        pre.data.toList ++ (bs ++ post.data.toList) := by
      simp only [ByteArray.data_append, List.data_toByteArray, Array.toList_append,
        List.append_assoc]
    rw [rest, split]
    exact List.drop_left' (by rw [Array.length_toList, ByteArray.size_data])

-- Where the data ends with what was put there, this is all that follows.
theorem rest_behind (pre : ByteArray) (bs : List UInt8) :
    (⟨pre ++ bs.toByteArray, pre.size⟩ : Cursor).rest = bs := by
  rw [rest, ByteArray.data_append, Array.toList_append, List.data_toByteArray]
  exact List.drop_left' (by rw [Array.length_toList, ByteArray.size_data])

theorem rest_start (bs : List UInt8) : (start bs.toByteArray).rest = bs := by
  rw [rest, start, List.data_toByteArray, List.drop_zero]

end Cursor

/-! ## 2. Readers of given bytes -/

section
variable {ε α β : Type} {f : α → Except ε β}

theorem ok_bind (a : α) (f : α → Except ε β) : (Except.ok a >>= f) = f a := rfl

theorem bind_eq_ok_iff {x : Except ε α} {b : β} :
    (x >>= f) = .ok b ↔ ∃ a, x = .ok a ∧ f a = .ok b := by
  constructor
  · intro ok
    cases x with
    | error e => cases ok
    | ok a => exact ⟨a, rfl, ok⟩
  · rintro ⟨a, rfl, ok⟩
    exact ok

end

namespace Reader

variable {α β : Type}

theorem bind_of_ok {r : Reader α} {f : α → Reader β} {c c' : Cursor} {a : α}
    (h : r c = .ok a c') : (r >>= f) c = f a c' := by
  show EStateM.bind r f c = _
  simp only [EStateM.bind, h]

theorem bind_of_error {r : Reader α} {f : α → Reader β} {c c' : Cursor} {e : DecodeError}
    (h : r c = .error e c') : (r >>= f) c = .error e c' := by
  show EStateM.bind r f c = _
  simp only [EStateM.bind, h]

-- A sequence succeeds if both of its parts do.
theorem bind_eq_ok {r : Reader α} {f : α → Reader β} {c c'' : Cursor} {b : β} :
    (r >>= f) c = .ok b c'' ↔ ∃ a c', r c = .ok a c' ∧ f a c' = .ok b c'' := by
  constructor
  · intro h
    cases first : r c with
    | ok a c' => exact ⟨a, c', rfl, by rw [bind_of_ok first] at h; exact h⟩
    | error e c' => rw [bind_of_error first] at h; cases h
  · rintro ⟨a, c', first, second⟩
    rw [bind_of_ok first, second]

-- A sequence fails where one of its parts does.
theorem bind_eq_error {r : Reader α} {f : α → Reader β} {c c'' : Cursor} {e : DecodeError} :
    (r >>= f) c = .error e c'' ↔
      r c = .error e c'' ∨ ∃ a c', r c = .ok a c' ∧ f a c' = .error e c'' := by
  constructor
  · intro h
    cases first : r c with
    | ok a c' => exact .inr ⟨a, c', rfl, by rw [bind_of_ok first] at h; exact h⟩
    | error e' c' =>
      rw [bind_of_error first] at h
      cases h
      exact .inl rfl
  · rintro (first | ⟨a, c', first, second⟩)
    · exact bind_of_error first
    · rw [bind_of_ok first, second]

end Reader

/-- The reader reads `v` out of the bytes `bs`, wherever they stand and whatever follows them.
Where the data ends inside these bytes, it runs out of bytes. -/
structure Reads {α : Type} (r : Reader α) (v : α) (bs : List UInt8) : Prop where
  whole : ∀ c : Cursor, c.Sees bs → r c = .ok v (c.advance bs.length)
  cut : ∀ c : Cursor, c.pos ≤ c.data.size → (∃ b more, bs = c.rest ++ b :: more) →
    ∃ c', r c = .error .outOfBounds c'

namespace Reads

variable {α β : Type}

theorem pure (v : α) : Reads (Pure.pure v : Reader α) v [] where
  whole _ _ := rfl
  cut c _ := by
    rintro ⟨b, more, eq⟩
    exact absurd eq.symm (List.append_ne_nil_of_right_ne_nil _ (List.cons_ne_nil b more))

-- Readers in a row read bytes in a row.
theorem bind {r : Reader α} {f : α → Reader β} {a : α} {b : β} {xs ys : List UInt8}
    (first : Reads r a xs) (second : Reads (f a) b ys) : Reads (r >>= f) b (xs ++ ys) where
  whole c sees := by
    obtain ⟨sees_xs, sees_ys⟩ := Cursor.sees_append.mp sees
    rw [Reader.bind_of_ok (first.whole c sees_xs), second.whole _ sees_ys,
      Cursor.advance_advance, List.length_append]
  cut c pos_le := by
    rintro ⟨x, more, eq⟩
    -- the data ends inside `xs`, or `xs` is there and it ends inside `ys`
    rcases List.append_eq_append_iff.mp eq with ⟨left, rest_eq, ys_eq⟩ | ⟨right, xs_eq, eq'⟩
    · have sees : c.Sees xs := ⟨pos_le, left, rest_eq⟩
      obtain ⟨c', failed⟩ := second.cut (c.advance xs.length) sees.add_length_le
        ⟨x, more, by rw [Cursor.rest_advance, rest_eq, List.drop_left, ys_eq]⟩
      exact ⟨c', by rw [Reader.bind_of_ok (first.whole c sees), failed]⟩
    · cases right with
      | nil =>
        rw [List.append_nil] at xs_eq
        have sees : c.Sees xs := ⟨pos_le, [], by rw [xs_eq, List.append_nil]⟩
        obtain ⟨c', failed⟩ := second.cut (c.advance xs.length) sees.add_length_le
          ⟨x, more, by rw [Cursor.rest_advance, xs_eq, List.drop_length]; exact eq'.symm⟩
        exact ⟨c', by rw [Reader.bind_of_ok (first.whole c sees), failed]⟩
      | cons y ys' =>
        obtain ⟨c', failed⟩ := first.cut c pos_le ⟨y, ys', xs_eq⟩
        exact ⟨c', Reader.bind_of_error failed⟩

-- A reader may look up its place if what it reads does not depend on it.
theorem here {r : Nat → Reader α} {a : α} {bs : List UInt8} (h : ∀ place, Reads (r place) a bs) :
    Reads (Reader.position >>= r) a bs where
  whole c sees := (h c.pos).whole c sees
  cut c pos_le inside := (h c.pos).cut c pos_le inside

end Reads

/-! ## 3. Readers of one field -/

/-- The reader takes `n` bytes at once and makes of them what `f` says. -/
structure TakesAtOnce {α : Type} (r : Reader α) (n : Nat) (f : List UInt8 → α) : Prop where
  whole : ∀ c : Cursor, ∀ bs, bs.length = n → c.Sees bs → r c = .ok (f bs) (c.advance n)
  short : ∀ c : Cursor, c.data.size < c.pos + n → r c = .error .outOfBounds c

namespace TakesAtOnce

theorem ok_or_short {α : Type} {r : Reader α} {n : Nat} {f : List UInt8 → α}
    (h : TakesAtOnce r n f) (c : Cursor) :
    (∃ bs, bs.length = n ∧ c.Sees bs ∧ r c = .ok (f bs) (c.advance n)) ∨
      c.data.size < c.pos + n ∧ r c = .error .outOfBounds c := by
  by_cases fits : c.pos + n ≤ c.data.size
  · obtain ⟨sees, length⟩ := Cursor.sees_take fits
    exact .inl ⟨_, length, sees, h.whole c _ length sees⟩
  · exact .inr ⟨Nat.not_le.mp fits, h.short c (Nat.not_le.mp fits)⟩

theorem number (width : Nat) : TakesAtOnce (Reader.number width) width Bytes.value where
  whole c bs length sees := by
    have fits := sees.add_length_le
    obtain ⟨-, more, eq⟩ := sees
    subst length
    rw [Reader.number, if_pos fits, Bytes.number_eq_value c.data c.pos bs more eq]
    rfl
  short c lt := by rw [Reader.number, if_neg (Nat.not_le.mpr lt)]

theorem take (n : Nat) : TakesAtOnce (Reader.take n) n List.toByteArray where
  whole c bs length sees := by
    have fits := sees.add_length_le
    obtain ⟨-, more, eq⟩ := sees
    subst length
    have taken : c.data.extract c.pos (c.pos + bs.length) = bs.toByteArray := by
      apply ByteArray.ext
      apply Array.toList_inj.mp
      rw [Cursor.toList_extract, Nat.add_sub_cancel_left, List.data_toByteArray]
      show c.rest.take bs.length = bs
      rw [eq, List.take_left]
    rw [Reader.take, if_pos fits, taken]
    rfl
  short c lt := by rw [Reader.take, if_neg (Nat.not_le.mpr lt)]

theorem skip (n : Nat) : TakesAtOnce (Reader.skip n) n fun _ => () where
  whole c bs length sees := by
    have fits := sees.add_length_le
    subst length
    rw [Reader.skip, if_pos fits]
    rfl
  short c lt := by rw [Reader.skip, if_neg (Nat.not_le.mpr lt)]

end TakesAtOnce

theorem Reader.add_le_of_number {width n : Nat} {c c' : Cursor}
    (h : Reader.number width c = .ok n c') : c.pos + width ≤ c.data.size := by
  rw [Reader.number] at h
  split at h
  · next fits => exact fits
  · cases h

theorem Reader.lt_of_number {width n : Nat} {c c' : Cursor}
    (h : Reader.number width c = .ok n c') : n < 256 ^ width := by
  rw [Reader.number] at h
  split at h
  · cases h
    exact Bytes.number_lt c.data c.pos width
  · cases h

theorem TakesAtOnce.reads {α : Type} {r : Reader α} {n : Nat} {f : List UInt8 → α}
    (h : TakesAtOnce r n f) {bs : List UInt8} (length : bs.length = n) : Reads r (f bs) bs where
  whole c sees := by
    rw [length]
    exact h.whole c bs length sees
  cut c pos_le := by
    rintro ⟨b, more, eq⟩
    have eq := congrArg List.length eq
    rw [length, List.length_append, Cursor.length_rest, List.length_cons] at eq
    exact ⟨c, h.short c (by omega)⟩

/-! ## 4. Properties of readers -/

/-- A property passes from the parts of a reader to the reader.  Many readers are told a place to
name in their failures, so it is a property of readers that depend on a place. -/
structure Closed (P : {α : Type} → (Nat → Reader α) → Prop) : Prop where
  pure {α : Type} (v : α) : P fun _ => (Pure.pure v : Reader α)
  throw {α : Type} (what : Malformation) :
    P fun place => (MonadExcept.throw (DecodeError.malformedInstruction place what) : Reader α)
  bind {α β : Type} {r : Nat → Reader α} {f : α → Nat → Reader β} (first : P r)
    (second : ∀ a, P (f a)) : P fun place => r place >>= fun a => f a place
  takesAtOnce {α : Type} {r : Reader α} {n : Nat} {f : List UInt8 → α} (takes : TakesAtOnce r n f) :
    P fun _ => r

namespace Closed

variable {P : {α : Type} → (Nat → Reader α) → Prop} (h : Closed P)
include h

theorem map {α β : Type} {r : Nat → Reader α} (f : α → β) (k : P r) :
    P fun place => f <$> r place := by
  simp only [map_eq_pure_bind]
  exact h.bind k fun a => h.pure (f a)

omit h in
theorem ite {α : Type} {r s : Nat → Reader α} (p : Prop) [Decidable p] (k : P r) (k' : P s) :
    P fun place => if p then r place else s place := by
  by_cases hp : p
  · simpa only [if_pos hp] using k
  · simpa only [if_neg hp] using k'

theorem number (width : Nat) : P fun _ => Reader.number width := h.takesAtOnce (.number width)

theorem take (n : Nat) : P fun _ => Reader.take n := h.takesAtOnce (.take n)

theorem skip (n : Nat) : P fun _ => Reader.skip n := h.takesAtOnce (.skip n)

theorem scalar (s : Scalar) : P fun _ => Reader.scalar s := h.map s.value (h.number s.width)

theorem u16 : P fun _ => Reader.u16 := h.map UInt16.ofNat (h.number 2)

theorem u32 : P fun _ => Reader.u32 := h.map UInt32.ofNat (h.number 4)

end Closed

/-! ## 5. Local readers -/

/-- What a reader accepts, it reads out of the bytes that it passes; the place that it is told has
no part in what it reads. -/
structure Local {α : Type} (r : Nat → Reader α) : Prop where
  reads : ∀ {place : Nat} {c c' : Cursor} {v : α}, c.pos ≤ c.data.size → r place c = .ok v c' →
    ∃ bs, c.Sees bs ∧ c' = c.advance bs.length ∧ ∀ place, Reads (r place) v bs

namespace Local

variable {α β : Type}

theorem pure (v : α) : Local fun _ => (Pure.pure v : Reader α) where
  reads pos_le ok := by
    cases ok
    exact ⟨[], Cursor.sees_nil pos_le, rfl, fun _ => .pure v⟩

theorem bind {r : Nat → Reader α} {f : α → Nat → Reader β} (first : Local r)
    (second : ∀ a, Local (f a)) : Local fun place => r place >>= fun a => f a place where
  reads pos_le ok := by
    obtain ⟨a, c', ok_r, ok_f⟩ := Reader.bind_eq_ok.mp ok
    obtain ⟨xs, sees_xs, rfl, reads_xs⟩ := first.reads pos_le ok_r
    obtain ⟨ys, sees_ys, rfl, reads_ys⟩ := (second a).reads sees_xs.add_length_le ok_f
    refine ⟨xs ++ ys, Cursor.sees_append.mpr ⟨sees_xs, sees_ys⟩, ?_, fun place =>
      (reads_xs place).bind (reads_ys place)⟩
    rw [Cursor.advance_advance, List.length_append]

-- A reader may look up its place.
theorem throw (e : Nat → DecodeError) :
    Local fun place => (MonadExcept.throw (e place) : Reader α) where
  reads _ ok := by cases ok

theorem takesAtOnce {r : Reader α} {n : Nat} {f : List UInt8 → α} (h : TakesAtOnce r n f) :
    Local fun _ => r where
  reads {place c c' v} pos_le ok := by
    change r c = .ok v c' at ok
    rcases h.ok_or_short c with ⟨bs, length, sees, taken⟩ | ⟨-, failed⟩
    · rw [taken] at ok
      cases ok
      exact ⟨bs, sees, by rw [length], fun _ => h.reads length⟩
    · rw [failed] at ok
      cases ok

theorem closed : Closed Local := ⟨pure, fun _ => throw _, bind, takesAtOnce⟩

theorem number (width : Nat) : Local fun _ => Reader.number width := closed.number width

theorem take (n : Nat) : Local fun _ => Reader.take n := closed.take n

theorem skip (n : Nat) : Local fun _ => Reader.skip n := closed.skip n

theorem scalar (s : Scalar) : Local fun _ => Reader.scalar s := closed.scalar s

theorem u16 : Local fun _ => Reader.u16 := closed.u16

theorem u32 : Local fun _ => Reader.u32 := closed.u32

end Local

/-! ## 6. Fields at an offset -/

namespace Bytes

variable {data : ByteArray} {offset : Nat}

theorem numberAt_of_sees {width : Nat} {bs : List UInt8} (h : bs.length = width)
    (sees : (⟨data, offset⟩ : Cursor).Sees bs) : numberAt data offset width = .ok (value bs) := by
  have fits : offset + bs.length ≤ data.size := sees.add_length_le
  obtain ⟨-, more, eq⟩ := sees
  subst h
  rw [numberAt, if_pos fits, number_eq_value data offset bs more eq]

theorem u16At_of_le (fits : offset + 2 ≤ data.size) :
    u16At data offset = .ok (UInt16.ofNat (number data offset 2)) := by
  rw [u16At, numberAt, if_pos fits]
  rfl

theorem u16At_of_lt (short : data.size < offset + 2) :
    u16At data offset = .error .outOfBounds := by
  rw [u16At, numberAt, if_neg (Nat.not_le.mpr short)]
  rfl

theorem smallAt_of_le (fits : offset + 4 ≤ data.size) :
    smallAt data offset =
      if number data offset 4 < 2 ^ 31 then .ok (UInt32.ofNat (number data offset 4))
      else .error (.malformed (.smallFieldOutOfRange offset)) := by
  rw [smallAt, numberAt, if_pos fits]
  rfl

theorem smallAt_of_lt (short : data.size < offset + 4) :
    smallAt data offset = .error .outOfBounds := by
  rw [smallAt, numberAt, if_neg (Nat.not_le.mpr short)]
  rfl

theorem lt_of_smallAt {w : UInt32} (ok : smallAt data offset = .ok w) : w.toNat < 2 ^ 31 := by
  obtain ⟨n, -, ok⟩ := bind_eq_ok_iff.mp ok
  split at ok
  · next lt =>
    cases ok
    rw [UInt32.toNat_ofNat_of_lt' (Nat.lt_trans lt (by decide))]
    exact lt
  · cases ok

theorem u16At_of_sees {n : Nat} (h : n < 2 ^ 16)
    (sees : (⟨data, offset⟩ : Cursor).Sees (ofNumber 2 n)) :
    u16At data offset = .ok (UInt16.ofNat n) := by
  rw [u16At, numberAt_of_sees (length_ofNumber 2 n) sees, value_ofNumber 2 n h]
  rfl

theorem smallAt_of_sees {n : Nat} (h : n < 2 ^ 31)
    (sees : (⟨data, offset⟩ : Cursor).Sees (ofNumber 4 n)) :
    smallAt data offset = .ok (UInt32.ofNat n) := by
  have wide : n < 256 ^ 4 := Nat.lt_trans h (by decide)
  rw [smallAt, numberAt_of_sees (length_ofNumber 4 n) sees, value_ofNumber 4 n wide]
  show (if n < 2 ^ 31 then _ else _) = _
  rw [if_pos h]
  rfl

end Bytes

/-! ## 7. Failures -/

/-- Every failure of a reader is one that `E` allows. -/
def FailsWith {α : Type} (E : DecodeError → Prop) (r : Reader α) : Prop :=
  ∀ c e c', r c = .error e c' → E e

namespace FailsWith

variable {α β : Type} {E : DecodeError → Prop}

theorem pure (v : α) : FailsWith E (Pure.pure v) := by
  intro c e c' failed
  cases failed

theorem throw {e : DecodeError} (h : E e) : FailsWith E (MonadExcept.throw e : Reader α) := by
  intro c e' c' failed
  cases failed
  exact h

theorem bind {r : Reader α} {f : α → Reader β} (first : FailsWith E r)
    (second : ∀ a, FailsWith E (f a)) : FailsWith E (r >>= f) := by
  intro c e c' failed
  rcases Reader.bind_eq_error.mp failed with failed | ⟨a, d, -, failed⟩
  · exact first c e c' failed
  · exact second a d e c' failed

-- A reader that takes bytes at once can only run out of them.
theorem takesAtOnce {r : Reader α} {n : Nat} {f : List UInt8 → α} (takes : TakesAtOnce r n f)
    (h : E .outOfBounds) : FailsWith E r := by
  intro c e c' failed
  rcases takes.ok_or_short c with ⟨bs, -, -, taken⟩ | ⟨-, short⟩
  · rw [taken] at failed
    cases failed
  · rw [short] at failed
    cases failed
    exact h

theorem closed {E : Nat → DecodeError → Prop} (short : ∀ place, E place .outOfBounds)
    (refused : ∀ place what, E place (.malformedInstruction place what)) :
    Closed fun r => ∀ place, FailsWith (E place) (r place) where
  pure v _ := pure v
  throw what place := throw (refused place what)
  bind first second place := (first place).bind fun a => second a place
  takesAtOnce takes place := takesAtOnce takes (short place)

end FailsWith

end DalvikCode
