import DalvikCode.Method.Layout
import DalvikCode.Method.TryTable
import DalvikCode.Proofs.Leb128

/-!
# The grammar of handler records

A record is a size, pairs of a type and an address, and the address of a catch-all if the size is
not positive.  The size counts the pairs.  All of these numbers may be encoded at any length that
the format admits.
-/

namespace DalvikCode

open Leb128

/-! ## 1. Records -/

namespace HandlerRecord

/-- The handlers of a record in the order in which they are tried. -/
def handlers (r : HandlerRecord) : Array ExceptionHandler :=
  (r.typed.map fun h => ⟨some h.1, h.2⟩).toArray ++ (r.catchAll?.map (⟨none, ·⟩)).toArray

-- The catch-all of a record is the last one of its handlers if that has no type.
theorem catchAll?_handlers (r : HandlerRecord) :
    (r.handlers.back?.filter (·.isCatchAll)).map (·.address) = r.catchAll? := by
  rw [handlers]
  cases r.catchAll? with
  | none =>
    rw [Option.map_none, Option.toArray_none, Array.append_empty, List.back?_toArray,
      List.getLast?_map]
    cases r.typed.getLast? with
    | none => rfl
    | some h => rfl
  | some address =>
    rw [Option.map_some, Option.toArray_some, ← Array.push_eq_append, Array.back?_push]
    rfl

@[simp] theorem toList_handlers (r : HandlerRecord) : r.handlers.toList =
    r.typed.map (fun h => ⟨some h.1, h.2⟩) ++ (r.catchAll?.map (⟨none, ·⟩)).toList := by
  unfold handlers
  cases r.catchAll? <;> simp

theorem size_handlers (r : HandlerRecord) :
    r.handlers.size = r.typed.length + r.catchAll?.toList.length := by
  rw [← Array.length_toList, toList_handlers]
  cases r.catchAll? <;> simp

-- A handler without a type stands behind all others.
theorem eq_last_of_isCatchAll {r : HandlerRecord} {i : Nat} {h : ExceptionHandler}
    (found : r.handlers[i]? = some h) (untyped : h.isCatchAll) : i + 1 = r.handlers.size := by
  rw [size_handlers]
  rw [← Array.getElem?_toList, toList_handlers, List.getElem?_append] at found
  split at found
  · rw [List.getElem?_map, Option.map_eq_some_iff] at found
    obtain ⟨pair, -, rfl⟩ := found
    cases untyped
  · next behind =>
    obtain ⟨lt, -⟩ := List.getElem?_eq_some_iff.mp found
    simp only [List.length_map] at behind lt
    cases catchAll : r.catchAll? with
    | none => simp [catchAll] at lt
    | some address =>
      simp only [catchAll, Option.map_some, Option.toList_some, List.length_singleton] at lt ⊢
      omega

/-! ## 2. Bytes of records -/

/-- The bytes are an encoding of a type and of an address. -/
def EncodesPair (pair : UInt32 × UInt32) (bs : List UInt8) : Prop :=
  ∃ xs ys, Small pair.1.toNat xs ∧ Small pair.2.toNat ys ∧ bs = xs ++ ys

/-- The bytes are an encoding of the address of a catch-all, if there is one. -/
def EncodesCatchAll : Option UInt32 → List UInt8 → Prop
  | none, bs => bs = []
  | some address, bs => Small address.toNat bs

/-- The bytes are an encoding of a record that declares the given size. -/
structure Encodes (size : Int32) (r : HandlerRecord) (bs : List UInt8) : Prop where
  length_typed : r.typed.length = size.toInt.natAbs
  isSome_catchAll? : r.catchAll?.isSome ↔ size.toInt ≤ 0
  bytes : ∃ xs ys zs, Word size xs ∧ Row EncodesPair r.typed ys ∧
    EncodesCatchAll r.catchAll? zs ∧ bs = xs ++ (ys ++ zs)

-- A record without any handler has no size.
theorem Encodes.nonempty {size : Int32} {r : HandlerRecord} {bs : List UInt8}
    (h : Encodes size r bs) : 0 < r.handlers.size := by
  have length := h.length_typed
  have catchAll := h.isSome_catchAll?
  rw [size_handlers]
  cases found : r.catchAll? with
  | some address => simp
  | none =>
    simp only [found, Option.isSome_none, Bool.false_eq_true, false_iff] at catchAll
    omega

end HandlerRecord

/-! ## 3. What the reader accepts -/

theorem Row.map_iff {α β : Type} {G : α → List UInt8 → Prop} {f : α → β} {ys : List β}
    {bs : List UInt8} : Row (fun y bs => ∃ x, G x bs ∧ y = f x) ys bs ↔
      ∃ xs, ys = xs.map f ∧ Row G xs bs := by
  constructor
  · intro row
    induction row with
    | nil => exact ⟨[], rfl, .nil⟩
    | cons first _ ih =>
      obtain ⟨x, first, rfl⟩ := first
      obtain ⟨xs, rfl, behind⟩ := ih
      exact ⟨x :: xs, rfl, .cons first behind⟩
  · rintro ⟨xs, rfl, row⟩
    induction row with
    | nil => exact .nil
    | cons first _ ih => exact .cons ⟨_, first, rfl⟩ ih

namespace TryTable

open HandlerRecord

theorem parses_readTyped : Parses readTyped fun h bs =>
    ∃ pair : UInt32 × UInt32, EncodesPair pair bs ∧ h = ⟨some pair.1, pair.2⟩ := by
  refine (parses_small.bind fun type => parses_small.bind_pure _).congr fun h bs => ?_
  constructor
  · rintro ⟨type, xs, ys, type_small, ⟨address, address_small, rfl⟩, rfl⟩
    exact ⟨(type, address), ⟨xs, ys, type_small, address_small, rfl⟩, rfl⟩
  · rintro ⟨⟨type, address⟩, ⟨xs, ys, type_small, address_small, rfl⟩, rfl⟩
    exact ⟨type, xs, ys, type_small, ⟨address, address_small, rfl⟩, rfl⟩

theorem parses_readCatchAll : Parses readCatchAll fun h bs =>
    ∃ address : UInt32, Small address.toNat bs ∧ h = ⟨none, address⟩ :=
  parses_small.bind_pure _

/-- Reads the handlers of a record behind its size. -/
def readHandlers (size : Int32) : Reader (Array ExceptionHandler) := do
  let typed ← Reader.times size.toInt.natAbs readTyped
  if size.toInt ≤ 0 then return typed.push (← readCatchAll) else return typed

theorem readRecord_eq (limits : Limits) (record : Nat) : readRecord limits record = (do
    let size ← Leb128.signed
    if limits.maxHandlers < size.toInt.natAbs then
      Reader.malformed (.tooManyHandlers record size.toInt.natAbs)
    else readHandlers size) := by
  refine congrArg (Leb128.signed >>= ·) (funext fun size => ?_)
  dsimp only
  split <;> rfl

theorem parses_readHandlers (size : Int32) : Parses (readHandlers size) fun hs bs =>
    ∃ r : HandlerRecord, r.typed.length = size.toInt.natAbs ∧
      (r.catchAll?.isSome ↔ size.toInt ≤ 0) ∧ hs = r.handlers ∧
      ∃ ys zs, Row EncodesPair r.typed ys ∧ EncodesCatchAll r.catchAll? zs ∧ bs = ys ++ zs := by
  refine Parses.congr ((parses_readTyped.times _).bind fun typed =>
    .ite _ (parses_readCatchAll.bind_pure _) (.pure _)) fun hs bs => ?_
  constructor
  · rintro ⟨typed, ys, zs, ⟨length, row⟩, behind, rfl⟩
    obtain ⟨pairs, typed_eq, pairs_row⟩ := Row.map_iff.mp row
    have length_pairs : pairs.length = size.toInt.natAbs := by
      rw [← length, ← Array.length_toList, typed_eq, List.length_map]
    split at behind
    · next le =>
      obtain ⟨h, ⟨address, small, rfl⟩, rfl⟩ := behind
      refine ⟨⟨pairs, some address⟩, length_pairs, ?_, ?_, ys, zs, pairs_row, small, rfl⟩
      · simpa using le
      · apply Array.toList_inj.mp
        simp [typed_eq]
    · next not_le =>
      obtain ⟨rfl, rfl⟩ := behind
      refine ⟨⟨pairs, none⟩, length_pairs, ?_, ?_, ys, [], pairs_row, rfl, rfl⟩
      · simpa using not_le
      · apply Array.toList_inj.mp
        simp [typed_eq]
  · rintro ⟨r, length, catchAll, rfl, ys, zs, row, behind, rfl⟩
    refine ⟨(r.typed.map fun h => ⟨some h.1, h.2⟩).toArray, ys, zs,
      ⟨by simpa using length, Row.map_iff.mpr ⟨r.typed, by simp, row⟩⟩, ?_, rfl⟩
    cases found : r.catchAll? with
    | none =>
      rw [found] at catchAll behind
      have positive : ¬ size.toInt ≤ 0 := by simpa using catchAll
      rw [if_neg positive]
      refine ⟨Array.toList_inj.mp ?_, behind⟩
      simp [found]
    | some address =>
      rw [found] at catchAll behind
      have le : size.toInt ≤ 0 := by simpa using catchAll
      rw [if_pos le]
      refine ⟨_, ⟨address, behind, rfl⟩, Array.toList_inj.mp ?_⟩
      simp [found]

/-- A record is read from its encodings, and from no other bytes, if the limits admit its size. -/
theorem parses_readRecord (limits : Limits) (record : Nat) :
    Parses (readRecord limits record) fun hs bs => ∃ size r, Encodes size r bs ∧
      size.toInt.natAbs ≤ limits.maxHandlers ∧ hs = r.handlers := by
  rw [readRecord_eq]
  refine Parses.congr (parses_signed.bind fun size =>
    .ite _ (.throw _) (parses_readHandlers size)) fun hs bs => ?_
  constructor
  · rintro ⟨size, xs, _, word, behind, rfl⟩
    split at behind
    · exact behind.elim
    · next admitted =>
      obtain ⟨r, length, catchAll, rfl, ys, zs, row, last, rfl⟩ := behind
      exact ⟨size, r, ⟨length, catchAll, xs, ys, zs, word, row, last, rfl⟩,
        Nat.not_lt.mp admitted, rfl⟩
  · rintro ⟨size, r, ⟨length, catchAll, xs, ys, zs, word, row, last, rfl⟩, admitted, rfl⟩
    refine ⟨size, xs, ys ++ zs, word, ?_, rfl⟩
    rw [if_neg (Nat.not_lt.mpr admitted)]
    exact ⟨r, length, catchAll, rfl, ys, zs, row, last, rfl⟩

-- A size that the limits do not admit is refused behind its own bytes.
theorem readRecord_of_refused {limits : Limits} {size : Int32} {xs : List UInt8} {c : Cursor}
    (record : Nat) (word : Word size xs) (sees : c.Sees xs)
    (refused : limits.maxHandlers < size.toInt.natAbs) : readRecord limits record c =
      .error (.malformed (.tooManyHandlers record size.toInt.natAbs)) (c.advance xs.length) := by
  rw [readRecord_eq, Reader.bind_of_ok ((parses_signed.reads word).whole c sees), if_pos refused]
  rfl

/-! ## 4. Handlers of a block -/

theorem handlers_eq_ok_iff (t : TryTable) (b : TryBlock) (hs : Array ExceptionHandler) :
    t.handlers b = .ok hs ↔ ∃ size r bs, (⟨t.image, t.recordOffset b⟩ : Cursor).Sees bs ∧
      Encodes size r bs ∧ size.toInt.natAbs ≤ t.limits.maxHandlers ∧ hs = r.handlers := by
  have parses := parses_readRecord t.limits (t.recordOffset b)
  unfold handlers Cursor.at?
  constructor
  · intro ok
    split at ok
    · next le =>
      rw [ok_bind] at ok
      split at ok
      · next read =>
        cases ok
        obtain ⟨bs, ⟨size, r, encodes, admitted, rfl⟩, sees, -⟩ := parses.accepts le read
        exact ⟨size, r, bs, sees, encodes, admitted, rfl⟩
      · cases ok
    · cases ok
  · rintro ⟨size, r, bs, sees, encodes, admitted, rfl⟩
    have le : t.recordOffset b ≤ t.image.size := sees.pos_le
    have reads := parses.reads ⟨size, r, encodes, admitted, rfl⟩
    rw [if_pos le, ok_bind, reads.whole _ sees]

-- Where the offset of a record saturates, both it and the exact sum are behind the image.
theorem recordOffset_eq_of_le {t : TryTable} (image_lt : t.image.size < 2 ^ 63) {b : TryBlock}
    (le : t.recordOffset b ≤ t.image.size ∨
      t.handlersStart + b.handlerOffset.toNat ≤ t.image.size) :
    t.recordOffset b = t.handlersStart + b.handlerOffset.toNat := by
  unfold recordOffset at le ⊢
  omega

/-- What the handlers of a block are, told by the grammar of records.  There are always some, and
only the last one may be a catch-all, which it is exactly if the size of the record is not positive.
A size that the limits do not admit is refused before anything behind it is read. -/
theorem handlers_by_grammar {t : TryTable} (image_lt : t.image.size < 2 ^ 63) (b : TryBlock) :
    let place : Cursor := ⟨t.image, t.handlersStart + b.handlerOffset.toNat⟩
    (∀ hs, t.handlers b = .ok hs ↔ ∃ size r bs, place.Sees bs ∧ Encodes size r bs ∧
      size.toInt.natAbs ≤ t.limits.maxHandlers ∧ hs = r.handlers) ∧
    (∀ size r bs, place.Sees bs → Encodes size r bs → size.toInt.natAbs ≤ t.limits.maxHandlers →
      0 < r.handlers.size ∧ (∀ i h, r.handlers[i]? = some h → h.isCatchAll →
        i + 1 = r.handlers.size) ∧
      t.catchAll? b = .ok r.catchAll? ∧ (r.catchAll?.isSome ↔ size.toInt ≤ 0)) ∧
    ∀ size xs, place.Sees xs → Word size xs → t.limits.maxHandlers < size.toInt.natAbs →
      readRecord t.limits place.pos place = .error
        (.malformed (.tooManyHandlers place.pos size.toInt.natAbs)) (place.advance xs.length) ∧
      t.handlers b = .error (.malformed (.tooManyHandlers place.pos size.toInt.natAbs)) := by
  intro place
  have handlers_iff (hs : Array ExceptionHandler) : t.handlers b = .ok hs ↔ ∃ size r bs,
      place.Sees bs ∧ Encodes size r bs ∧ size.toInt.natAbs ≤ t.limits.maxHandlers ∧
        hs = r.handlers := by
    rw [handlers_eq_ok_iff]
    constructor
    · rintro ⟨size, r, bs, sees, shows⟩
      rw [recordOffset_eq_of_le image_lt (.inl sees.pos_le)] at sees
      exact ⟨size, r, bs, sees, shows⟩
    · rintro ⟨size, r, bs, sees, shows⟩
      rw [recordOffset_eq_of_le image_lt (.inr sees.pos_le)]
      exact ⟨size, r, bs, sees, shows⟩
  refine ⟨handlers_iff, fun size r bs sees encodes admitted => ?_,
    fun size xs sees word refused => ?_⟩
  · have ok := (handlers_iff _).mpr ⟨size, r, bs, sees, encodes, admitted, rfl⟩
    refine ⟨encodes.nonempty, fun i h => eq_last_of_isCatchAll, ?_, encodes.isSome_catchAll?⟩
    rw [catchAll?, ok]
    exact congrArg Except.ok r.catchAll?_handlers
  · have failed := readRecord_of_refused place.pos word sees refused
    have le : place.pos ≤ t.image.size := sees.pos_le
    have at_place : t.recordOffset b = place.pos := recordOffset_eq_of_le image_lt (.inr le)
    refine ⟨failed, ?_⟩
    unfold handlers
    rw [at_place, Cursor.at?, if_pos le, ok_bind, show (⟨t.image, place.pos⟩ : Cursor) = place from
      rfl, failed]

/-- A table whose only record declares the size `-1` in two bytes. -/
def oneRecord : TryTable where
  image := ⟨#[0xee, 0xff, 0x7f, 0x05, 0x10, 0x20]⟩
  triesStart := 0
  handlersStart := 0
  count := 1
  codeSize := 1
  limits := .strict

theorem handlers_by_grammar_of_oneRecord : oneRecord.image.size < 2 ^ 63 ∧
    oneRecord.handlers ⟨0, 1, 1⟩ = .ok #[⟨some 5, 0x10⟩, ⟨none, 0x20⟩] ∧
    oneRecord.catchAll? ⟨0, 1, 1⟩ = .ok (some 0x20) := by
  have image_lt : oneRecord.image.size < 2 ^ 63 := by decide
  obtain ⟨handlers_iff, shape, -⟩ := handlers_by_grammar image_lt ⟨0, 1, 1⟩
  have sees : (⟨oneRecord.image, 1⟩ : Cursor).Sees [0xff, 0x7f, 0x05, 0x10, 0x20] :=
    ⟨by decide, [], rfl⟩
  have pair : EncodesPair (5, 0x10) [0x05, 0x10] :=
    ⟨[0x05], [0x10], by decide, by decide, rfl⟩
  have pairs : Row EncodesPair [(5, 0x10)] [0x05, 0x10] := .cons pair .nil
  have encodes : Encodes (-1) ⟨[(5, 0x10)], some 0x20⟩ [0xff, 0x7f, 0x05, 0x10, 0x20] :=
    ⟨by decide, by decide, [0xff, 0x7f], [0x05, 0x10], [0x20], ⟨-1, by decide, rfl⟩, pairs,
      (by decide : Small 0x20 [0x20]), rfl⟩
  have admitted : (-1 : Int32).toInt.natAbs ≤ Limits.strict.maxHandlers := by decide
  obtain ⟨-, -, catchAll, -⟩ := shape (-1) _ _ sees encodes admitted
  exact ⟨image_lt, (handlers_iff _).mpr ⟨-1, _, _, sees, encodes, admitted, rfl⟩, catchAll⟩

end TryTable

end DalvikCode
