import DalvikCode.Proofs.Reading

/-!
# Operations that stop a program

On machine words and slices some operations are partial: an index may lie outside of its slice, a
sum may be no word, a shift may be as wide as its word.  Such an operation *traps*, which stops the
program, unlike a failure, which the program reports.  Here the partial operations are functions of
their own, and `Agrees` relates a computation that uses them to a reader: both give the same result,
so the computation does not trap.
-/

namespace DalvikCode.Trapping

/-! ## 1. Partial operations -/

/-- Why a program stops. -/
inductive Trap where
  /-- An index or a range lies outside of its slice. -/
  | index
  /-- The result of an operation is not a word of its type. -/
  | overflow
  /-- A shift is as wide as its word. -/
  | shift
  /-- More bytes are reserved than a slice can have. -/
  | capacity
  deriving DecidableEq, Repr

/-- A sum of words of `bits` bits. -/
def add (bits a b : Nat) : Except Trap Nat :=
  if a + b < 2 ^ bits then .ok (a + b) else .error .overflow

/-- A difference of words. -/
def sub (a b : Nat) : Except Trap Nat :=
  if b ≤ a then .ok (a - b) else .error .overflow

/-- A product of words of `bits` bits. -/
def mul (bits a b : Nat) : Except Trap Nat :=
  if a * b < 2 ^ bits then .ok (a * b) else .error .overflow

/-- A sum of signed words of 32 bits. -/
def addSigned (a b : Int) : Except Trap Int :=
  if -2 ^ 31 ≤ a + b ∧ a + b < 2 ^ 31 then .ok (a + b) else .error .overflow

/-- A word of `bits` bits shifted left by `k`; what is shifted out of the word is lost. -/
def shiftLeft (bits a k : Nat) : Except Trap Nat :=
  if k < bits then .ok (a * 2 ^ k % 2 ^ bits) else .error .shift

/-- A word of `bits` bits shifted right by `k`. -/
def shiftRight (bits a k : Nat) : Except Trap Nat :=
  if k < bits then .ok (a / 2 ^ k) else .error .shift

/-- The bytes of a slice from `start` to `stop`. -/
def range (data : ByteArray) (start stop : Nat) : Except Trap ByteArray :=
  if start ≤ stop ∧ stop ≤ data.size then .ok (data.extract start stop) else .error .index

/-- A slice with the element at `i` replaced. -/
def set {α : Type} (xs : Array α) (i : Nat) (x : α) : Except Trap (Array α) :=
  if i < xs.size then .ok (xs.setIfInBounds i x) else .error .index

/-- Reserves room for `count` elements of `size` bytes. -/
def reserve (count size : Nat) : Except Trap Unit :=
  if count * size < 2 ^ 63 then .ok () else .error .capacity

/-- A sum of words of 64 bits, if it is one. -/
def checkedAdd (a b : Nat) : Option Nat := if a + b < 2 ^ 64 then some (a + b) else none

/-- A product of words of 64 bits, if it is one. -/
def checkedMul (a b : Nat) : Option Nat := if a * b < 2 ^ 64 then some (a * b) else none

section
variable {bits a b k : Nat}

theorem add_of_lt (h : a + b < 2 ^ bits) : add bits a b = .ok (a + b) := if_pos h

theorem sub_of_le (h : b ≤ a) : sub a b = .ok (a - b) := if_pos h

theorem mul_of_lt (h : a * b < 2 ^ bits) : mul bits a b = .ok (a * b) := if_pos h

theorem shiftLeft_of_lt (h : k < bits) : shiftLeft bits a k = .ok (a * 2 ^ k % 2 ^ bits) := if_pos h

theorem shiftRight_of_lt (h : k < bits) : shiftRight bits a k = .ok (a / 2 ^ k) := if_pos h

theorem range_of_le {data : ByteArray} (h : a ≤ b) (h' : b ≤ data.size) :
    range data a b = .ok (data.extract a b) := if_pos ⟨h, h'⟩

theorem reserve_of_lt (h : a * b < 2 ^ 63) : reserve a b = .ok () := if_pos h

end

/-! ## 2. Executions -/

/-- How a computation fails. -/
inductive Fault where
  /-- The program stops. -/
  | trap (t : Trap)
  /-- The program reports a failure. -/
  | failed (e : DecodeError)
  deriving DecidableEq

/-- A computation that moves a cursor and may trap. -/
abbrev Execution (α : Type) := EStateM Fault Cursor α

instance : MonadLift (Except Trap) (Except Fault) where
  monadLift x := x.mapError .trap

instance : MonadLift (Except Trap) (EStateM Fault Cursor) where
  monadLift x c := match x with
    | .ok a => .ok a c
    | .error t => .error (.trap t) c

/-- A result that is no trap. -/
def ofExcept {α : Type} (x : Except DecodeError α) : Except Fault α := x.mapError .failed

/-- The execution of a reader, which does not trap. -/
def ofReader {α : Type} (r : Reader α) : Execution α := fun c =>
  match r c with
  | .ok a c' => .ok a c'
  | .error e c' => .error (.failed e) c'

/-- Reads a number of `width` bytes. -/
def number (width : Nat) : Execution Nat := fun c =>
  match checkedAdd c.pos width with
  | none => .error (.failed .outOfBounds) c
  | some stop =>
    if c.data.size < stop then .error (.failed .outOfBounds) c
    else match range c.data c.pos stop with
      | .error t => .error (.trap t) c
      | .ok bytes =>
        if bytes.size = width then .ok (Bytes.number bytes 0 width) { c with pos := stop }
        else .error (.failed .outOfBounds) c

/-- Moves over `n` bytes, which have to be present. -/
def skip (n : Nat) : Execution Unit := fun c =>
  match checkedAdd c.pos n with
  | none => .error (.failed .outOfBounds) c
  | some stop =>
    if stop ≤ c.data.size then .ok () { c with pos := stop } else .error (.failed .outOfBounds) c

/-- The position of the cursor. -/
def position : Execution Nat := fun c => .ok c.pos c

/-- The bytes of the slice under the cursor from `start` to `stop`. -/
def between (start stop : Nat) : Execution ByteArray := fun c =>
  match range c.data start stop with
  | .ok bytes => .ok bytes c
  | .error t => .error (.trap t) c

/-- Reads `length` bytes as they stand. -/
def take (length : Nat) : Execution ByteArray := do
  let start ← position
  skip length
  between start (← add 64 start length)

/-- Reads `n` things in a row behind those already read. -/
def timesOnto {α : Type} (m : Execution α) : Nat → Array α → Execution (Array α)
  | 0, done => pure done
  | n + 1, done => do timesOnto m n (done.push (← m))

/-- The result of a computation started at `start`, with the cursor behind what it has read. -/
def started {α : Type} (m : Execution α) (data : ByteArray) (start : Nat) :
    Except Fault (α × Cursor) := do
  let cursor ← ofExcept (Cursor.at? data start)
  match m cursor with
  | .ok v cursor => .ok (v, cursor)
  | .error f _ => .error f

theorem ofReader_eq_ok {α : Type} {r : Reader α} {c c' : Cursor} {a : α} :
    ofReader r c = .ok a c' ↔ r c = .ok a c' := by
  rw [ofReader]
  split
  · next ok => rw [ok, EStateM.Result.ok.injEq, EStateM.Result.ok.injEq]
  · next error => simp only [error, reduceCtorEq]

theorem ofReader_eq_error {α : Type} {r : Reader α} {c c' : Cursor} {f : Fault} :
    ofReader r c = .error f c' ↔ ∃ e, f = .failed e ∧ r c = .error e c' := by
  rw [ofReader]
  split
  · next ok => simp only [ok, reduceCtorEq, and_false, exists_false]
  · next e c'' error =>
    rw [error]
    constructor
    · intro h
      cases h
      exact ⟨e, rfl, rfl⟩
    · rintro ⟨e', rfl, h⟩
      cases h
      rfl

/-! ## 3. Agreement -/

/-- The cursor stands in a slice, and slices have less than `2 ^ 63` bytes. -/
structure InMemory (c : Cursor) : Prop where
  pos_le : c.pos ≤ c.data.size
  size_lt : c.data.size < 2 ^ 63

/-- From `low` on, the execution does what the reader does, which does not move back. -/
structure Agrees {α : Type} (low : Nat) (m : Execution α) (r : Reader α) : Prop where
  eq : ∀ c, InMemory c → low ≤ c.pos → m c = ofReader r c
  forward : ∀ c c' v, InMemory c → low ≤ c.pos → r c = .ok v c' → InMemory c' ∧ c.pos ≤ c'.pos

theorem bind_ok {α β : Type} {m : Execution α} {f : α → Execution β} {c c' : Cursor} {a : α}
    (h : m c = .ok a c') : (m >>= f) c = f a c' := by
  show EStateM.bind m f c = _
  simp only [EStateM.bind, h]

theorem bind_error {α β : Type} {m : Execution α} {f : α → Execution β} {c c' : Cursor}
    {e : Fault} (h : m c = .error e c') : (m >>= f) c = .error e c' := by
  show EStateM.bind m f c = _
  simp only [EStateM.bind, h]

-- What a reader reads lies in the slice.
theorem forward_of_local {α : Type} {r : Nat → Reader α} (h : Local r) (place : Nat)
    {c c' : Cursor} {v : α} (memory : InMemory c) (ok : r place c = .ok v c') :
    InMemory c' ∧ c.pos ≤ c'.pos := by
  obtain ⟨bs, sees, rfl, -⟩ := h.reads memory.pos_le ok
  exact ⟨⟨sees.add_length_le, memory.size_lt⟩, Nat.le_add_right _ _⟩

-- The bytes of a range, taken on their own, stand for the same number.
theorem number_extract {data : ByteArray} {start width : Nat} (h : start + width ≤ data.size) :
    Bytes.number (data.extract start (start + width)) 0 width = Bytes.number data start width := by
  obtain ⟨sees, length⟩ := (Cursor.sees_and_length_iff (Nat.le_add_right _ _) h).mpr rfl
  have width_eq := Nat.add_left_cancel length
  -- the bytes of the range have one value, seen in the data or on their own
  obtain ⟨-, more, eq⟩ := sees
  have inside := Bytes.number_eq_value data start _ more eq
  have alone := Bytes.number_eq_value (data.extract start (start + width)) 0 _ []
    (by rw [List.drop_zero, List.append_nil])
  rw [width_eq] at inside alone
  rw [inside, alone]

theorem number_eq (width : Nat) (c : Cursor) (size : c.data.size < 2 ^ 63) :
    number width c = ofReader (Reader.number width) c := by
  rw [number, ofReader, Reader.number, checkedAdd]
  -- what fits the slice has an end that is a word, so only the range decides
  by_cases fits : c.pos + width ≤ c.data.size
  · have word : c.pos + width < 2 ^ 64 := by omega
    have length : (c.data.extract c.pos (c.pos + width)).size = width := by
      rw [ByteArray.size_extract]
      omega
    simp only [if_pos word, if_neg (Nat.not_lt.mpr fits), if_pos fits, if_pos length,
      range_of_le (Nat.le_add_right c.pos width) fits, number_extract fits]
  · by_cases word : c.pos + width < 2 ^ 64
    · simp only [if_pos word, if_neg fits, if_pos (Nat.not_le.mp fits)]
    · simp only [if_neg word, if_neg fits]

theorem Agrees.eq_of_inMemory {α : Type} {m : Execution α} {r : Reader α} {c : Cursor}
    (h : Agrees 0 m r) (memory : InMemory c) : m c = ofReader r c :=
  h.eq c memory (Nat.zero_le _)

theorem Agrees.inMemory_of_ok {α : Type} {m : Execution α} {r : Reader α} {c c' : Cursor} {v : α}
    (h : Agrees 0 m r) (memory : InMemory c) (ok : r c = .ok v c') : InMemory c' :=
  (h.forward c c' v memory (Nat.zero_le _) ok).1

-- Started in a slice, an execution gives the result of the reader that it agrees with.
theorem started_eq {α : Type} {m : Execution α} {r : Reader α} {data : ByteArray} {start : Nat}
    (h : Agrees 0 m r) (size_lt : data.size < 2 ^ 63) :
    started m data start = if start ≤ data.size then match r ⟨data, start⟩ with
      | .ok v c => .ok (v, c)
      | .error e _ => .error (.failed e)
    else .error (.failed .outOfBounds) := by
  rw [started, Cursor.at?]
  split
  · next le =>
    show (match m ⟨data, start⟩ with
      | .ok v c => Except.ok (v, c)
      | .error f _ => .error f) = _
    rw [h.eq_of_inMemory ⟨le, size_lt⟩, ofReader]
    cases r ⟨data, start⟩ <;> rfl
  · rfl

namespace Agrees

variable {α β γ : Type} {low : Nat}

theorem pure (v : α) : Agrees low (Pure.pure v) (Pure.pure v) where
  eq _ _ _ := rfl
  forward _ _ _ memory _ ok := by
    cases ok
    exact ⟨memory, Nat.le_refl _⟩

theorem throw (e : DecodeError) :
    Agrees low (MonadExcept.throw (Fault.failed e) : Execution α)
      (MonadExcept.throw e : Reader α) where
  eq _ _ _ := rfl
  forward _ _ _ _ _ ok := by cases ok

-- Computations in a row agree if the second ones agree on whatever the first ones can give.
theorem bind_of {m : Execution α} {r : Reader α} {f : α → Execution β} {g : α → Reader β}
    (P : α → Prop) (first : Agrees low m r) (gives : ∀ c c' v, r c = .ok v c' → P v)
    (second : ∀ a, P a → Agrees low (f a) (g a)) : Agrees low (m >>= f) (r >>= g) where
  eq c memory le := by
    -- the second computation starts where the first one ends, which is not before `low`
    have same := first.eq c memory le
    rw [ofReader] at same ⊢
    cases ok : r c with
    | error e c' =>
      rw [ok] at same
      rw [bind_error same, Reader.bind_of_error ok]
    | ok a c' =>
      rw [ok] at same
      obtain ⟨memory', le'⟩ := first.forward c c' a memory le ok
      rw [bind_ok same, Reader.bind_of_ok ok]
      exact (second a (gives c c' a ok)).eq c' memory' (Nat.le_trans le le')
  forward c c'' b memory le ok := by
    obtain ⟨a, c', ok_r, ok_g⟩ := Reader.bind_eq_ok.mp ok
    obtain ⟨memory', le'⟩ := first.forward c c' a memory le ok_r
    obtain ⟨memory'', le''⟩ := (second a (gives c c' a ok_r)).forward c' c'' b memory'
      (Nat.le_trans le le') ok_g
    exact ⟨memory'', Nat.le_trans le' le''⟩

theorem bind {m : Execution α} {r : Reader α} {f : α → Execution β} {g : α → Reader β}
    (first : Agrees low m r) (second : ∀ a, Agrees low (f a) (g a)) :
    Agrees low (m >>= f) (r >>= g) :=
  bind_of (fun _ => True) first (fun _ _ _ _ => trivial) fun a _ => second a

theorem map {m : Execution α} {r : Reader α} (f : α → β) (h : Agrees low m r) :
    Agrees low (f <$> m) (f <$> r) := by
  rw [map_eq_pure_bind, map_eq_pure_bind]
  exact h.bind fun a => pure (f a)

theorem ite {m m' : Execution α} {r r' : Reader α} (p : Prop) [Decidable p] (h : Agrees low m r)
    (h' : Agrees low m' r') : Agrees low (if p then m else m') (if p then r else r') := by
  split
  · exact h
  · exact h'

-- A partial operation that does not trap leaves no trace.
theorem operation {x : Except Trap γ} {v : γ} {f : γ → Execution β} {r : Reader β}
    (h : x = .ok v) (k : Agrees low (f v) r) :
    Agrees low ((liftM x : Execution γ) >>= f) r := by
  rw [h]
  exact k

-- Both look up their position, which is no smaller than any before.
theorem here {f : Nat → Execution β} {g : Nat → Reader β}
    (h : ∀ place, low ≤ place → Agrees place (f place) (g place)) :
    Agrees low (position >>= f) (Reader.position >>= g) where
  eq c memory le := (h c.pos le).eq c memory (Nat.le_refl _)
  forward c c' v memory le := (h c.pos le).forward c c' v memory (Nat.le_refl _)

-- What has been found out about the cursor holds of a computation that starts there.
theorem of_eq {m : Execution α} {r : Nat → Reader α} (h : Local r) (place : Nat)
    (eq : ∀ c, InMemory c → m c = ofReader (r place) c) : Agrees low m (r place) where
  eq c memory _ := eq c memory
  forward _ _ _ memory _ ok := forward_of_local h place memory ok

theorem number (width : Nat) : Agrees low (number width) (Reader.number width) :=
  of_eq (.number width) 0 fun c memory => number_eq width c memory.size_lt

theorem skip (n : Nat) : Agrees low (skip n) (Reader.skip n) := by
  refine of_eq (.skip n) 0 fun c memory => ?_
  have size := memory.size_lt
  rw [Trapping.skip, ofReader, Reader.skip, checkedAdd]
  by_cases fits : c.pos + n ≤ c.data.size
  · have word : c.pos + n < 2 ^ 64 := by omega
    simp only [if_pos word, if_pos fits]
  · by_cases word : c.pos + n < 2 ^ 64
    · simp only [if_pos word, if_neg fits]
    · simp only [if_neg word, if_neg fits]

-- Not to move is to move over no bytes.
theorem skip_zero : Agrees low (Pure.pure ()) (Reader.skip 0) := by
  refine of_eq (.skip 0) 0 fun c memory => ?_
  rw [ofReader, Reader.skip, if_pos (by exact memory.pos_le)]
  rfl

theorem take (n : Nat) : Agrees low (take n) (Reader.take n) := by
  refine of_eq (.take n) 0 fun c memory => ?_
  have size := memory.size_lt
  -- the end is computed once more behind the check that it is a word
  have skipped := (skip n).eq c memory (Nat.le_refl c.pos)
  rw [Trapping.take, bind_ok (show position c = .ok c.pos c from rfl), ofReader, Reader.take]
  rw [ofReader, Reader.skip] at skipped
  by_cases fits : c.pos + n ≤ c.data.size
  · rw [if_pos fits] at skipped ⊢
    rw [bind_ok skipped, add_of_lt (by omega)]
    show between c.pos (c.pos + n) { c with pos := c.pos + n } = _
    rw [between, range_of_le (Nat.le_add_right c.pos n) fits]
  · rw [if_neg fits] at skipped ⊢
    rw [bind_error skipped]

theorem timesOnto {m : Execution α} {r : Reader α} (h : Agrees low m r) (n : Nat)
    (done : Array α) : Agrees low (timesOnto m n done) (Reader.timesOnto r n done) := by
  induction n generalizing done with
  | zero => exact pure done
  | succ n ih => exact h.bind fun a => ih (done.push a)

end Agrees

end DalvikCode.Trapping
