import DalvikCode.Debug.Items
import DalvikCode.Proofs.Debug.Grammar

/-!
# Walks through debug items

`next` carries out operations until one reports an item.  Each operation takes bytes, so a walk
never runs out of the count that bounds its loop before it runs out of bytes: what a call does is
told operation by operation, without that count.
-/

namespace DalvikCode.DebugInfo

open Reader

/-! ## 1. The header -/

section
variable {d : DebugInfo} {c : Cursor} {offset : Nat} {header : DebugHeader}

-- A header is read from its encodings, and from no other bytes.
theorem readHeader_eq_ok_iff : d.readHeader offset = .ok (header, c) ↔ ∃ bs,
    header.Encodes bs ∧ (⟨d.image, offset⟩ : Cursor).Sees bs ∧
      c = ⟨d.image, offset + bs.length⟩ := by
  unfold readHeader Cursor.at?
  constructor
  · intro read
    split at read
    · next le =>
      rw [ok_bind] at read
      split at read
      · next ok =>
        cases read
        exact DebugHeader.parses_read.accepts le ok
      · cases read
    · cases read
  · rintro ⟨bs, encodes, sees, rfl⟩
    have within : offset ≤ d.image.size := sees.pos_le
    rw [if_pos within, ok_bind, (DebugHeader.parses_read.reads encodes).whole _ sees]
    rfl

theorem within_of_readHeader (read : d.readHeader offset = .ok (header, c)) :
    c.pos ≤ c.data.size := by
  obtain ⟨bs, -, sees, rfl⟩ := readHeader_eq_ok_iff.mp read
  exact sees.add_length_le

theorem load_eq_ok_iff {m : Machine} : d.load offset = .ok (m, c) ↔
    ∃ header, d.readHeader offset = .ok (header, c) ∧ m = .init d.context d.registers header := by
  unfold load
  cases d.readHeader offset with
  | error e => exact iff_of_false nofun (by rintro ⟨_, ⟨⟩, -⟩)
  | ok result =>
    constructor
    · intro ok
      cases ok
      exact ⟨_, rfl, rfl⟩
    · rintro ⟨header, read, rfl⟩
      cases read
      rfl

end

/-! ## 2. One operation -/

/-- Carries out an operation and counts the item that it reports, if it reports one. -/
def Machine.pass (context : MethodContext) (m : Machine) (op : DebugOp) :
    Option DebugItem × Machine :=
  match m.apply context op with
  | (none, m) => (none, m)
  | (some event, m) => (some ⟨m.address, event⟩, { m with emitted := m.emitted + 1 })

theorem Machine.emitted_apply (context : MethodContext) (m : Machine) (op : DebugOp) :
    (m.apply context op).2.emitted = m.emitted := by
  cases op <;> rfl

section
variable {d : DebugInfo} {m m' : Machine} {c c' : Cursor} {op : DebugOp} {item? : Option DebugItem}

theorem emit?_eq_ok_iff : (m.apply d.context op).2.emit? d.limits (m.apply d.context op).1 =
    .ok (item?, m') ↔ m.pass d.context op = (item?, m') ∧
      (item?.isSome → m.emitted < d.limits.maxDebugItems) := by
  unfold Machine.pass Machine.emit?
  rw [← m.emitted_apply d.context op]
  rcases m.apply d.context op with ⟨_ | event, m₁⟩
  · rw [Except.ok.injEq]
    refine ⟨fun h => ⟨h, fun some => ?_⟩, fun h => h.1⟩
    cases h
    cases some
  · dsimp only
    split
    · next room =>
      rw [Except.ok.injEq]
      exact ⟨fun h => ⟨h, fun _ => room⟩, fun h => h.1⟩
    · next full =>
      refine iff_of_false (fun h => by cases h) fun h => ?_
      obtain ⟨passes, room⟩ := h
      cases passes
      exact full (room rfl)

/-- What an operation comes to: nothing at the end marker, else what carrying it out gives. -/
def Comes (d : DebugInfo) (m : Machine) (op : DebugOp) :
    Option (Option DebugItem × Machine) → Prop
  | none => op = .endSequence
  | some (item?, m') => op ≠ .endSequence ∧ m.pass d.context op = (item?, m') ∧
      (item?.isSome → m.emitted < d.limits.maxDebugItems)

theorem step_eq (d : DebugInfo) (m : Machine) : d.step m = (do
    let op ← DebugOp.read
    if op = .endSequence then return none
    else match (m.apply d.context op).2.emit? d.limits (m.apply d.context op).1 with
      | .ok result => return some result
      | .error e => throw e) := by
  refine congrArg (DebugOp.read >>= ·) (funext fun op => ?_)
  cases op with
  | endSequence => rfl
  | _ =>
    rw [if_neg (by simp)]
    dsimp only
    split
    · next emitted => simp only [emitted]
    · next emitted => simp only [emitted]

theorem step_eq_ok_iff {result : Option (Option DebugItem × Machine)} :
    d.step m c = .ok result c' ↔ ∃ op, DebugOp.read c = .ok op c' ∧ d.Comes m op result := by
  rw [step_eq, bind_eq_ok]
  constructor
  · rintro ⟨op, c₁, read, ok⟩
    by_cases marker : op = .endSequence
    · rw [if_pos marker] at ok
      cases ok
      exact ⟨op, read, marker⟩
    · rw [if_neg marker] at ok
      cases emitted : (m.apply d.context op).2.emit? d.limits (m.apply d.context op).1 with
      | error e =>
        rw [emitted] at ok
        cases ok
      | ok result =>
        rw [emitted] at ok
        cases ok
        exact ⟨op, read, marker, emit?_eq_ok_iff.mp emitted⟩
  · rintro ⟨op, read, comes⟩
    refine ⟨op, c', read, ?_⟩
    cases result with
    | none =>
      have marker : op = .endSequence := comes
      rw [if_pos marker]
      rfl
    | some result =>
      obtain ⟨running, passes⟩ := comes
      rw [if_neg running, emit?_eq_ok_iff.mpr passes]
      rfl

-- An operation takes bytes, whatever comes of it.
theorem moves_of_step {result : Option (Option DebugItem × Machine)}
    (within : c.pos ≤ c.data.size) (ok : d.step m c = .ok result c') :
    c'.pos ≤ c'.data.size ∧ c'.remaining < c.remaining := by
  obtain ⟨op, read, -⟩ := step_eq_ok_iff.mp ok
  exact DebugOp.parses_read.remaining_add_le (fun _ _ => DebugOp.Encodes.length_pos) within read

-- Without bytes there is no operation.
theorem step_of_spent (spent : c.remaining = 0) : d.step m c = .error .outOfBounds c := by
  have le : c.data.size ≤ c.pos := Nat.le_of_sub_eq_zero spent
  exact bind_of_error (bind_of_error (byte_of_le le))

end

/-! ## 3. One call -/

section
variable {d : DebugInfo} {m : Machine} {c : Cursor}

theorem nextItem_succ (k : Nat) : d.nextItem (k + 1) m c =
    match d.step m c with
    | .error e c' => .error e c'
    | .ok none c' => .ok none c'
    | .ok (some (some item, m')) c' => .ok (some (item, m')) c'
    | .ok (some (none, m')) c' => d.nextItem k m' c' := by
  rw [nextItem]
  rcases done : d.step m c with ⟨_ | ⟨_ | item, m'⟩, c'⟩ | ⟨e, c'⟩
  · rw [bind_of_ok done]; rfl
  · rw [bind_of_ok done]
  · rw [bind_of_ok done]; rfl
  · rw [bind_of_error done]

theorem nextItem_of_spent (spent : c.remaining = 0) (k : Nat) :
    d.nextItem k m c = .error .outOfBounds c := by
  cases k with
  | zero => rfl
  | succ k => rw [nextItem_succ, step_of_spent spent]

-- The count of a loop over operations has no part in what the loop does.
theorem nextItem_congr {k n : Nat} (within : c.pos ≤ c.data.size) (le : c.remaining ≤ k)
    (le' : c.remaining ≤ n) : d.nextItem k m c = d.nextItem n m c := by
  induction k generalizing m c n with
  | zero =>
    have spent : c.remaining = 0 := Nat.le_zero.mp le
    rw [nextItem_of_spent spent, nextItem_of_spent spent]
  | succ k ih =>
    cases n with
    | zero =>
      have spent : c.remaining = 0 := Nat.le_zero.mp le'
      rw [nextItem_of_spent spent, nextItem_of_spent spent]
    | succ n =>
      rw [nextItem_succ, nextItem_succ]
      rcases done : d.step m c with ⟨_ | ⟨_ | item, m'⟩, c'⟩ | ⟨e, c'⟩
      · rfl
      · obtain ⟨within', less⟩ := moves_of_step within done
        exact ih within' (by omega) (by omega)
      · rfl
      · rfl

namespace Traversal

/-- The walk that stands before an operation. -/
def before (d : DebugInfo) (m : Machine) (c : Cursor) : Traversal :=
  { info := d, progress := .paused m c }

/-- The walk that is over. -/
def closed (d : DebugInfo) : Traversal := { info := d, progress := .finished }

theorem next_closed (d : DebugInfo) : (closed d).next = (none, closed d) := rfl

theorem next_before (within : c.pos ≤ c.data.size) : (before d m c).next =
    match d.step m c with
    | .error e _ => (some (.error e), closed d)
    | .ok none _ => (none, closed d)
    | .ok (some (some item, m')) c' => (some (.ok item), before d m' c')
    | .ok (some (none, m')) c' => (before d m' c').next := by
  show continueFrom (before d m c) m c = _
  rw [continueFrom]
  cases remaining : c.remaining with
  | zero =>
    rw [step_of_spent remaining]
    rfl
  | succ k =>
    rw [show (before d m c).info = d from rfl, nextItem_succ]
    rcases done : d.step m c with ⟨_ | ⟨_ | item, m'⟩, c'⟩ | ⟨e, c'⟩
    · rfl
    · obtain ⟨within', less⟩ := moves_of_step within done
      show _ = continueFrom (before d m' c') m' c'
      rw [continueFrom, show (before d m' c').info = d from rfl]
      dsimp only
      rw [nextItem_congr within' (k := k) (n := c'.remaining) (by omega) (Nat.le_refl _)]
      rfl
    · rfl
    · rfl

-- A call that yields an item carries out silent operations up to one that reports it.
theorem exists_pass_of_next {I : Machine → Prop}
    (silent : ∀ m op m', I m → m.pass d.context op = (none, m') → I m') {item : DebugItem}
    {u : Traversal} (holds : I m) (within : c.pos ≤ c.data.size)
    (ok : (before d m c).next = (some (.ok item), u)) :
    ∃ m₁ op m₂ c', I m₁ ∧ m₁.pass d.context op = (some item, m₂) ∧ c'.pos ≤ c'.data.size ∧
      u = before d m₂ c' := by
  induction left : c.remaining using Nat.strongRecOn generalizing m c with
  | _ n ih =>
    rw [next_before within] at ok
    rcases done : d.step m c with ⟨_ | ⟨_ | found, m'⟩, c'⟩ | ⟨e, c'⟩
    · rw [done] at ok
      cases ok
    · obtain ⟨op, -, -, passes, -⟩ := step_eq_ok_iff.mp done
      obtain ⟨within', less⟩ := moves_of_step within done
      rw [done] at ok
      exact ih _ (by omega) (silent m op m' holds passes) within' ok rfl
    · obtain ⟨op, -, -, passes, -⟩ := step_eq_ok_iff.mp done
      obtain ⟨within', -⟩ := moves_of_step within done
      rw [done] at ok
      cases ok
      exact ⟨m, op, m', c', holds, passes, within', rfl⟩
    · rw [done] at ok
      cases ok

/-! ## 4. Walks -/

-- A walk that has not begun stands before the first operation, once the header has been read.
theorem next_traversal {offset : Nat} {header : DebugHeader} {cursor : Cursor}
    (present : d.offset? = some offset) (read : d.readHeader offset = .ok (header, cursor)) :
    d.traversal.next = (before d (.init d.context d.registers header) cursor).next := by
  have loaded := load_eq_ok_iff.mpr ⟨header, read, rfl⟩
  rw [next, show d.traversal.progress = .unstarted from rfl]
  simp only [show d.traversal.info = d from rfl, present, loaded]
  rfl

-- A header that cannot be read is the only result of a walk.
theorem next_traversal_of_unreadable {offset : Nat} {e : DecodeError}
    (present : d.offset? = some offset) (failed : d.readHeader offset = .error e) :
    d.traversal.next = (some (.error e), closed d) := by
  have loaded : d.load offset = .error e := by
    rw [load, failed]
    rfl
  rw [next, show d.traversal.progress = .unstarted from rfl]
  simp only [show d.traversal.info = d from rfl, present, loaded]
  rfl

-- Without debug information there is nothing to walk through.
theorem next_traversal_of_absent (absent : d.offset? = none) :
    d.traversal.next = (none, closed d) := by
  rw [next, show d.traversal.progress = .unstarted from rfl]
  simp only [show d.traversal.info = d from rfl, absent]
  rfl

theorem exists_header_of_next {item : DebugItem} {u : Traversal}
    (ok : d.traversal.next = (some (.ok item), u)) : ∃ offset header c,
      d.offset? = some offset ∧ d.readHeader offset = .ok (header, c) := by
  cases present : d.offset? with
  | none =>
    rw [next_traversal_of_absent present] at ok
    cases ok
  | some offset =>
    cases read : d.readHeader offset with
    | ok result => exact ⟨offset, result.1, result.2, rfl, read⟩
    | error e =>
      rw [next_traversal_of_unreadable present read] at ok
      cases ok

/-- Calling `next` from `t` on yields the items one by one, and the walk then stands at `u`. -/
inductive Walks : Traversal → List DebugItem → Traversal → Prop where
  | here (t : Traversal) : Walks t [] t
  | next {t u v : Traversal} {item : DebugItem} {items : List DebugItem}
      (h : t.next = (some (.ok item), u)) (more : Walks u items v) : Walks t (item :: items) v

-- A walk past an item depends on the first call only.
theorem Walks.of_next_eq {t u v : Traversal} {items : List DebugItem} (h : Walks u items v)
    (nonempty : items ≠ []) (same : t.next = u.next) : Walks t items v := by
  cases h with
  | here => exact absurd rfl nonempty
  | next h more => exact .next (same.trans h) more

-- Only a program with a header yields items.
theorem Walks.exists_header {items : List DebugItem} {t : Traversal}
    (h : Walks d.traversal items t) (nonempty : items ≠ []) : ∃ offset header c,
      d.offset? = some offset ∧ d.readHeader offset = .ok (header, c) := by
  cases h with
  | here => exact absurd rfl nonempty
  | next h _ => exact exists_header_of_next h

-- The invariant is about the items yielded so far and the machine behind them.
theorem Walks.exists_pass {I : List DebugItem → Machine → Prop}
    (step : ∀ past m op item? m', I past m → m.pass d.context op = (item?, m') →
      I (past ++ item?.toList) m') {past items rest : List DebugItem} {item : DebugItem}
    {t : Traversal} (holds : I past m) (within : c.pos ≤ c.data.size)
    (walk : Walks (before d m c) (items ++ item :: rest) t) :
    ∃ m₁ op m₂, I (past ++ items) m₁ ∧ m₁.pass d.context op = (some item, m₂) := by
  have silent (past : List DebugItem) : ∀ m op m', I past m →
      m.pass d.context op = (none, m') → I past m' := fun m op m' holds passes =>
    List.append_nil past ▸ step past m op none m' holds passes
  induction items generalizing past m c with
  | nil =>
    cases walk with
    | next ok _ =>
      obtain ⟨m₁, op, m₂, c', holds, passes, -, -⟩ :=
        exists_pass_of_next (silent past) holds within ok
      exact ⟨m₁, op, m₂, by rw [List.append_nil]; exact holds, passes⟩
  | cons first items ih =>
    cases walk with
    | next ok more =>
      obtain ⟨m₁, op, m₂, c', holds, passes, within, rfl⟩ :=
        exists_pass_of_next (silent past) holds within ok
      obtain ⟨m₃, op', m₄, holds, passes⟩ :=
        ih (step past m₁ op _ m₂ holds passes) within more
      exact ⟨m₃, op', m₄, by rw [List.append_assoc] at holds; exact holds, passes⟩

/-- Calling `next` from `t` on yields the results `rs` one by one, then none, and ends at `u`, where
there is nothing more. -/
inductive Yields : Traversal → List (Except DecodeError DebugItem) → Traversal → Prop where
  | ended {t u : Traversal} (h : t.next = (none, u)) (fused : u.next = (none, u)) : Yields t [] u
  | next {t u v : Traversal} {r : Except DecodeError DebugItem}
      {rs : List (Except DecodeError DebugItem)} (h : t.next = (some r, u))
      (more : Yields u rs v) : Yields t (r :: rs) v

-- What a walk yields depends on its next call only.
theorem Yields.of_next_eq {t u v : Traversal} {rs : List (Except DecodeError DebugItem)}
    (same : t.next = u.next) (h : Yields u rs v) : Yields t rs v := by
  cases h with
  | ended h fused => exact .ended (same.trans h) fused
  | next h more => exact .next (same.trans h) more

end Traversal

end

end DalvikCode.DebugInfo
