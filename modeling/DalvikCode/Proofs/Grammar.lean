import DalvikCode.Proofs.Reading

/-!
# Readers and the bytes of a value

A reader and a relation between values and bytes belong together if the reader reads a value out of
all bytes that the relation allows for it, and accepts no others.  The relation of a reader is
computed along its definition, in the same way as its locality.
-/

namespace DalvikCode

/-! ## 1. Bytes of a number -/

namespace Bytes

theorem value_lt (bs : List UInt8) : value bs < 256 ^ bs.length := by
  induction bs with
  | nil => decide
  | cons b bs ih =>
    have first := b.toNat_lt
    rw [value, List.length_cons, Nat.pow_succ]
    omega

-- The value of some bytes has no other bytes of the same width.
theorem ofNumber_value (bs : List UInt8) : ofNumber bs.length (value bs) = bs := by
  induction bs with
  | nil => rfl
  | cons b bs ih =>
    have first := b.toNat_lt
    have low : UInt8.ofNat (b.toNat + 256 * value bs) = b := by
      apply UInt8.toNat_inj.mp
      rw [UInt8.toNat_ofNat']
      omega
    have rest : (b.toNat + 256 * value bs) / 256 = value bs := by omega
    rw [value, List.length_cons, ofNumber, low, rest, ih]

end Bytes

/-! ## 2. Relations of composed readers -/

/-- The reader reads `a` out of the bytes `bs` if `G a bs`, and nothing out of other bytes. -/
structure Parses {α : Type} (r : Reader α) (G : α → List UInt8 → Prop) : Prop where
  reads : ∀ {a bs}, G a bs → Reads r a bs
  accepts : ∀ {c c' : Cursor} {a}, c.pos ≤ c.data.size → r c = .ok a c' →
    ∃ bs, G a bs ∧ c.Sees bs ∧ c' = c.advance bs.length

namespace Parses

variable {α β : Type} {r : Reader α} {G G' : α → List UInt8 → Prop}

theorem congr (h : Parses r G) (eq : ∀ a bs, G a bs ↔ G' a bs) : Parses r G' := by
  have same : G = G' := funext fun a => funext fun bs => propext (eq a bs)
  exact same ▸ h

theorem pure (v : α) : Parses (Pure.pure v : Reader α) fun a bs => a = v ∧ bs = [] where
  reads := by
    rintro a bs ⟨rfl, rfl⟩
    exact .pure a
  accepts pos_le ok := by
    cases ok
    exact ⟨[], ⟨rfl, rfl⟩, Cursor.sees_nil pos_le, rfl⟩

theorem throw (e : DecodeError) :
    Parses (MonadExcept.throw e : Reader α) fun _ _ => False where
  reads := False.elim
  accepts _ ok := by cases ok

-- What has been read first may be relied on in reading on.
theorem bind_of {f : α → Reader β} {H : α → β → List UInt8 → Prop} (first : Parses r G)
    (second : ∀ a xs, G a xs → Parses (f a) (H a)) :
    Parses (r >>= f) fun b bs => ∃ a xs ys, G a xs ∧ H a b ys ∧ bs = xs ++ ys where
  reads := by
    rintro b bs ⟨a, xs, ys, hx, hy, rfl⟩
    exact (first.reads hx).bind ((second a xs hx).reads hy)
  accepts pos_le ok := by
    obtain ⟨a, c', ok_r, ok_f⟩ := Reader.bind_eq_ok.mp ok
    obtain ⟨xs, hx, sees_xs, rfl⟩ := first.accepts pos_le ok_r
    obtain ⟨ys, hy, sees_ys, rfl⟩ := (second a xs hx).accepts sees_xs.add_length_le ok_f
    refine ⟨xs ++ ys, ⟨a, xs, ys, hx, hy, rfl⟩, Cursor.sees_append.mpr ⟨sees_xs, sees_ys⟩, ?_⟩
    rw [Cursor.advance_advance, List.length_append]

theorem bind {f : α → Reader β} {H : α → β → List UInt8 → Prop} (first : Parses r G)
    (second : ∀ a, Parses (f a) (H a)) :
    Parses (r >>= f) fun b bs => ∃ a xs ys, G a xs ∧ H a b ys ∧ bs = xs ++ ys :=
  first.bind_of fun a _ _ => second a

-- What is read may be converted before it is returned.
theorem bind_pure (first : Parses r G) (f : α → β) :
    Parses (r >>= fun a => Pure.pure (f a)) fun b bs => ∃ a, G a bs ∧ b = f a :=
  (first.bind fun a => pure (f a)).congr fun b bs => by
    constructor
    · rintro ⟨a, xs, ys, hx, ⟨rfl, rfl⟩, rfl⟩
      exact ⟨a, by rwa [List.append_nil], rfl⟩
    · rintro ⟨a, hx, rfl⟩
      exact ⟨a, bs, [], hx, ⟨rfl, rfl⟩, (List.append_nil bs).symm⟩

theorem map (f : α → β) (h : Parses r G) : Parses (f <$> r) fun b bs => ∃ a, G a bs ∧ b = f a := by
  rw [map_eq_pure_bind]
  exact h.bind_pure f

-- A conversion belongs to the reader whose result it is applied to.
theorem bind_map {γ : Type} {r : Reader γ} {conv : γ → α} {k : α → Reader β}
    {H : α → β → List UInt8 → Prop} (first : Parses (conv <$> r) G)
    (second : ∀ v, Parses (k v) (H v)) :
    Parses (r >>= fun a => k (conv a)) fun b bs =>
      ∃ v xs ys, G v xs ∧ H v b ys ∧ bs = xs ++ ys := by
  have parses := first.bind second
  rwa [bind_map_left] at parses

theorem bind_map_pure {γ : Type} {r : Reader γ} {conv : γ → α} {f : α → β}
    (first : Parses (conv <$> r) G) :
    Parses (r >>= fun a => Pure.pure (f (conv a))) fun b bs => ∃ v, G v bs ∧ b = f v := by
  have parses := first.bind_pure f
  rwa [bind_map_left] at parses

theorem ite {s : Reader α} (p : Prop) [Decidable p] (h : Parses r G) (k : Parses s G') :
    Parses (if p then r else s) fun a bs => if p then G a bs else G' a bs := by
  by_cases hp : p
  · simpa only [if_pos hp] using h
  · simpa only [if_neg hp] using k

-- A reader may look up its place if what it accepts does not depend on it.
theorem here {r : Nat → Reader α} (h : ∀ place, Parses (r place) G) :
    Parses (Reader.position >>= r) G where
  reads hG := .here fun place => (h place).reads hG
  accepts {c c' a} pos_le ok := (h c.pos).accepts pos_le (show r c.pos c = .ok a c' from ok)

-- A reader with a relation is local.
theorem toLocal {r : Nat → Reader α} (h : ∀ place, Parses (r place) G) : Local r where
  reads {place c c' v} pos_le ok := by
    obtain ⟨bs, hG, sees, eq⟩ := (h place).accepts pos_le ok
    exact ⟨bs, sees, eq, fun place => (h place).reads hG⟩

-- A reader succeeds exactly where such bytes stand.
theorem ok_iff (h : Parses r G) {c c' : Cursor} {a : α} (within : c.pos ≤ c.data.size) :
    r c = .ok a c' ↔ ∃ bs, G a bs ∧ c.Sees bs ∧ c' = c.advance bs.length := by
  constructor
  · exact h.accepts within
  · rintro ⟨bs, hG, sees, rfl⟩
    exact (h.reads hG).whole c sees

-- A reader reads exactly what its relation allows.
theorem reads_iff (h : Parses r G) {a : α} {bs : List UInt8} : Reads r a bs ↔ G a bs := by
  refine ⟨fun reads => ?_, h.reads⟩
  have sees := Cursor.sees_behind .empty .empty bs
  obtain ⟨found, hG, sees_found, eq⟩ := h.accepts sees.pos_le (reads.whole _ sees)
  -- both are seen at one place, and they are of one length
  have length : bs.length = found.length := by
    have := congrArg Cursor.pos eq
    simp only [Cursor.pos_advance] at this
    omega
  obtain ⟨⟨-, more, rest_eq⟩, -, more', rest_eq'⟩ := And.intro sees sees_found
  rw [rest_eq] at rest_eq'
  exact (List.append_inj rest_eq' length).1 ▸ hG

end Parses

/-! ## 3. Relations of fields -/

namespace Parses

-- A reader that takes `n` bytes at once accepts any `n` bytes.
theorem takesAtOnce {α : Type} {r : Reader α} {n : Nat} {f : List UInt8 → α}
    (h : TakesAtOnce r n f) : Parses r fun a bs => bs.length = n ∧ a = f bs where
  reads := by
    rintro a bs ⟨length, rfl⟩
    exact h.reads length
  accepts {c c' a} pos_le ok := by
    rcases h.ok_or_short c with ⟨bs, length, sees, taken⟩ | ⟨-, failed⟩
    · rw [taken] at ok
      cases ok
      exact ⟨bs, ⟨length, rfl⟩, sees, by rw [length]⟩
    · rw [failed] at ok
      cases ok

theorem number (width : Nat) : Parses (Reader.number width) fun n bs =>
    n < 256 ^ width ∧ bs = Bytes.ofNumber width n :=
  (takesAtOnce (.number width)).congr fun n bs => by
    constructor
    · rintro ⟨rfl, rfl⟩
      exact ⟨Bytes.value_lt bs, (Bytes.ofNumber_value bs).symm⟩
    · rintro ⟨lt, rfl⟩
      exact ⟨Bytes.length_ofNumber width n, (Bytes.value_ofNumber width n lt).symm⟩

-- A reader that starts with a byte goes by the first byte.
theorem cons {β : Type} {f : Nat → Reader β} {H : UInt8 → β → List UInt8 → Prop}
    (second : ∀ b : UInt8, Parses (f b.toNat) (H b)) :
    Parses (Reader.byte >>= f) fun v bs => ∃ b rest, H b v rest ∧ bs = b :: rest := by
  have byte : Parses Reader.byte fun n bs => ∃ b : UInt8, n = b.toNat ∧ bs = [b] :=
    (number 1).congr fun n bs => by
      constructor
      · rintro ⟨lt, rfl⟩
        exact ⟨UInt8.ofNat n, (UInt8.toNat_ofNat_of_lt' lt).symm, rfl⟩
      · rintro ⟨b, rfl, rfl⟩
        exact ⟨b.toNat_lt, by rw [Bytes.ofNumber, Bytes.ofNumber, UInt8.ofNat_toNat]⟩
  refine (byte.bind_of (H := fun n v rest => ∃ b : UInt8, n = b.toNat ∧ H b v rest)
    fun n xs first => ?_).congr fun v bs => ?_
  · obtain ⟨b, rfl, -⟩ := first
    refine (second b).congr fun v rest => ?_
    constructor
    · exact fun h => ⟨b, rfl, h⟩
    · rintro ⟨b', same, h⟩
      rwa [UInt8.toNat_inj.mp same]
  · constructor
    · rintro ⟨n, _, rest, ⟨b, rfl, rfl⟩, ⟨b', same, h⟩, rfl⟩
      exact ⟨b, rest, by rwa [UInt8.toNat_inj.mp same], rfl⟩
    · rintro ⟨b, rest, h, rfl⟩
      exact ⟨b.toNat, [b], rest, ⟨b, rfl, rfl⟩, ⟨b, rfl, h⟩, rfl⟩

theorem u16 : Parses Reader.u16 fun n bs => bs = Bytes.ofNumber 2 n.toNat :=
  ((number 2).map UInt16.ofNat).congr fun n bs => by
    constructor
    · rintro ⟨m, ⟨lt, rfl⟩, rfl⟩
      rw [UInt16.toNat_ofNat_of_lt' lt]
    · rintro rfl
      exact ⟨n.toNat, ⟨n.toNat_lt, rfl⟩, UInt16.ofNat_toNat.symm⟩

theorem u32 : Parses Reader.u32 fun n bs => bs = Bytes.ofNumber 4 n.toNat :=
  ((number 4).map UInt32.ofNat).congr fun n bs => by
    constructor
    · rintro ⟨m, ⟨lt, rfl⟩, rfl⟩
      rw [UInt32.toNat_ofNat_of_lt' lt]
    · rintro rfl
      exact ⟨n.toNat, ⟨n.toNat_lt, rfl⟩, UInt32.ofNat_toNat.symm⟩

theorem take (n : Nat) : Parses (Reader.take n) fun data bs =>
    data.size = n ∧ bs = data.data.toList :=
  (takesAtOnce (.take n)).congr fun data bs => by
    constructor
    · rintro ⟨rfl, rfl⟩
      exact ⟨List.size_toByteArray, by rw [List.data_toByteArray]⟩
    · rintro ⟨rfl, rfl⟩
      refine ⟨by rw [Array.length_toList, ByteArray.size_data], ByteArray.ext ?_⟩
      rw [List.data_toByteArray, Array.toArray_toList]

theorem skip (n : Nat) : Parses (Reader.skip n) fun _ bs => bs.length = n :=
  (takesAtOnce (.skip n)).congr fun _ _ => and_iff_left rfl

end Parses

/-! ## 4. Rows -/

/-- The bytes of some things in a row. -/
inductive Row {α : Type} (G : α → List UInt8 → Prop) : List α → List UInt8 → Prop where
  | nil : Row G [] []
  | cons {x : α} {xs : List α} {bs rest : List UInt8} (first : G x bs) (behind : Row G xs rest) :
      Row G (x :: xs) (bs ++ rest)

namespace Row

variable {α : Type} {G : α → List UInt8 → Prop}

theorem flatMap {f : α → List UInt8} {xs : List α} (each : ∀ x ∈ xs, G x (f x)) :
    Row G xs (xs.flatMap f) := by
  induction xs with
  | nil => exact .nil
  | cons x xs ih =>
    exact .cons (each x List.mem_cons_self) (ih fun y mem => each y (List.mem_cons_of_mem x mem))

-- The bytes of a row are at least as many as those that each thing takes.
theorem mul_length_le {k : Nat} (each : ∀ x bs, G x bs → k ≤ bs.length) {xs : List α}
    {bs : List UInt8} (row : Row G xs bs) : k * xs.length ≤ bs.length := by
  induction row with
  | nil => simp
  | cons first behind ih =>
    have taken := each _ _ first
    rw [List.length_cons, List.length_append, Nat.mul_succ]
    omega

-- What the bytes of a thing tell of it holds of all things in a row.
theorem forall_mem {P : α → Prop} (each : ∀ x bs, G x bs → P x) {xs : List α} {bs : List UInt8}
    (row : Row G xs bs) : ∀ x ∈ xs, P x := by
  induction row with
  | nil => nofun
  | cons first behind ih => exact List.forall_mem_cons.mpr ⟨each _ _ first, ih⟩

end Row

namespace Parses

variable {α : Type} {r : Reader α} {G : α → List UInt8 → Prop}

theorem timesOnto (each : Parses r G) (n : Nat) (done : Array α) :
    Parses (Reader.timesOnto r n done) fun a bs =>
      ∃ xs, a = done ++ xs.toArray ∧ xs.length = n ∧ Row G xs bs := by
  induction n generalizing done with
  | zero =>
    refine (Parses.pure done).congr fun a bs => ?_
    constructor
    · rintro ⟨rfl, rfl⟩
      exact ⟨[], (Array.append_empty).symm, rfl, .nil⟩
    · rintro ⟨xs, rfl, length, row⟩
      obtain rfl := List.eq_nil_of_length_eq_zero length
      cases row
      exact ⟨Array.append_empty, rfl⟩
  | succ n ih =>
    refine (each.bind fun x => ih (done.push x)).congr fun a bs => ?_
    constructor
    · rintro ⟨x, _, _, first, ⟨xs, rfl, rfl, row⟩, rfl⟩
      exact ⟨x :: xs, by simp, rfl, .cons first row⟩
    · rintro ⟨_, rfl, length, row⟩
      cases row with
      | nil => cases length
      | cons first behind =>
        exact ⟨_, _, _, first, ⟨_, by simp, Nat.succ.inj length, behind⟩, rfl⟩

theorem times (each : Parses r G) (n : Nat) :
    Parses (Reader.times n r) fun a bs => a.size = n ∧ Row G a.toList bs :=
  (each.timesOnto n #[]).congr fun a bs => by
    constructor
    · rintro ⟨xs, rfl, rfl, row⟩
      rw [Array.empty_append]
      exact ⟨rfl, row⟩
    · rintro ⟨rfl, row⟩
      exact ⟨a.toList, by rw [Array.empty_append, Array.toArray_toList], Array.length_toList, row⟩

/-! ## 5. Counted loops -/

section
variable (parses : Parses r G) {k : Nat} (each : ∀ x bs, G x bs → k ≤ bs.length) {c : Cursor}
  (within : c.pos ≤ c.data.size)
include parses each within

theorem remaining_add_le {a : α} {c' : Cursor} (read : r c = .ok a c') :
    c'.pos ≤ c'.data.size ∧ c'.remaining + k ≤ c.remaining := by
  obtain ⟨bs, encodes, sees, rfl⟩ := parses.accepts within read
  have fits := sees.add_length_le
  have taken := each a bs encodes
  simp only [Cursor.remaining, Cursor.data_advance, Cursor.pos_advance]
  omega

-- Two counts that are both too great for the bytes make no difference.
theorem timesOnto_eq {m n : Nat} (short : c.remaining < k * m) (short' : c.remaining < k * n)
    (done : Array α) : Reader.timesOnto r m done c = Reader.timesOnto r n done c := by
  induction m generalizing n c done with
  | zero => simp at short
  | succ m ih =>
    cases n with
    | zero => simp at short'
    | succ n =>
      unfold Reader.timesOnto
      cases read : r c with
      | error e c' => rw [Reader.bind_of_error read, Reader.bind_of_error read]
      | ok a c' =>
        obtain ⟨within', taken⟩ := parses.remaining_add_le each within read
        rw [Reader.bind_of_ok read, Reader.bind_of_ok read]
        rw [Nat.mul_succ] at short short'
        apply ih within' <;> omega

/-- A loop makes no more passes than there are bytes for, and one more that fails. -/
theorem times_eq_min (positive : 0 < k) (n : Nat) :
    Reader.times n r c = Reader.times (min n (c.remaining / k + 1)) r c := by
  by_cases le : n ≤ c.remaining / k + 1
  · rw [Nat.min_eq_left le]
  · rw [Nat.min_eq_right (by omega)]
    have short : c.remaining < k * (c.remaining / k + 1) := Nat.lt_mul_div_succ _ positive
    unfold Reader.times
    apply parses.timesOnto_eq each within _ short
    calc c.remaining < k * (c.remaining / k + 1) := short
      _ ≤ k * n := Nat.mul_le_mul_left k (by omega)

end

end Parses

end DalvikCode
