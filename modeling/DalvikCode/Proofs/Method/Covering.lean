import Mathlib
import DalvikCode.Proofs.Method.Entries
import DalvikCode.Proofs.Method.Header
import DalvikCode.Proofs.Method.Opening

/-!
# The try block at an address

A table is searched from its first entry on.  An entry is passed if it can be read and does not cover
the address; the search ends at the first entry that is not passed, and what this entry is read as
is the answer.  So the entries behind it have no part in the answer.
-/

namespace DalvikCode

namespace TryTable

/-! ## 1. Searching -/

theorem firstCovering_of_passed {address : UInt32} {rs : List (Except DecodeError TryBlock)}
    (passed : ∀ r ∈ rs, ∃ b, r = .ok b ∧ b.covers address = false) :
    firstCovering address rs = .ok none := by
  induction rs with
  | nil => rfl
  | cons r rest ih =>
    obtain ⟨b, rfl, apart⟩ := passed r List.mem_cons_self
    rw [firstCovering, apart, if_neg Bool.false_ne_true]
    exact ih fun r mem => passed r (List.mem_cons_of_mem _ mem)

-- The search goes on to the first result that does not let it pass, and ends there.
theorem firstCovering_of_first {address : UInt32} {rs : List (Except DecodeError TryBlock)} {i : Nat}
    {r : Except DecodeError TryBlock}
    (before : ∀ j < i, ∃ b, rs[j]? = some (.ok b) ∧ b.covers address = false)
    (found : rs[i]? = some r) (ends : ∀ b, r = .ok b → b.covers address = true) :
    firstCovering address rs = some <$> r := by
  induction rs generalizing i with
  | nil => cases found
  | cons first rest ih =>
    cases i with
    | zero =>
      cases found
      cases r with
      | error e => rfl
      | ok b =>
        rw [firstCovering, if_pos (ends b rfl)]
        rfl
    | succ i =>
      obtain ⟨b, head, apart⟩ := before 0 (Nat.succ_pos i)
      cases head
      rw [firstCovering, apart, if_neg Bool.false_ne_true]
      exact ih (fun j lt => before (j + 1) (Nat.succ_lt_succ lt)) found

/-- The entry can be read, and its block does not cover the address. -/
def Passes (t : TryTable) (address : UInt32) (index : Nat) : Prop :=
  ∃ b, t.block index = .ok b ∧ ¬ b.Covers address

/-- The entry is the first one that is not passed. -/
structure EndsAt (t : TryTable) (address : UInt32) (index : Nat) : Prop where
  listed : index < t.count
  before : ∀ j < index, t.Passes address j
  not_passed : ¬ t.Passes address index

section
variable {t : TryTable} {address : UInt32}

theorem passes_or_ends (t : TryTable) (address : UInt32) :
    (∀ i < t.count, t.Passes address i) ∨ ∃ i, t.EndsAt address i := by
  classical
  by_cases all : ∀ i < t.count, t.Passes address i
  · exact .inl all
  · have some : ∃ i, i < t.count ∧ ¬ t.Passes address i := by
      simpa only [not_forall, exists_prop] using all
    obtain ⟨listed, not_passed⟩ := Nat.find_spec some
    refine .inr ⟨Nat.find some, listed, fun j lt => ?_, not_passed⟩
    exact Decidable.byContradiction fun fails =>
      Nat.find_min some lt ⟨Nat.lt_trans lt listed, fails⟩

theorem Passes.covers_eq_false {i : Nat} (h : t.Passes address i) :
    ∃ b, t.block i = .ok b ∧ b.covers address = false := by
  obtain ⟨b, read, apart⟩ := h
  refine ⟨b, read, Bool.eq_false_iff.mpr fun covers => apart ?_⟩
  exact (TryBlock.covers_iff (start_lt_of_block read) address).mp covers

theorem blockAt_of_passes (h : ∀ i < t.count, t.Passes address i) :
    t.blockAt address = .ok none := by
  refine firstCovering_of_passed fun r mem => ?_
  obtain ⟨i, listed, rfl⟩ := List.mem_map.mp mem
  exact (h i (List.mem_range.mp listed)).covers_eq_false

theorem blockAt_of_endsAt {i : Nat} (h : t.EndsAt address i) :
    t.blockAt address = some <$> t.block i := by
  have entry {j : Nat} (lt : j < t.count) : t.blocks[j]? = some (t.block j) := by
    rw [blocks, List.getElem?_map, List.getElem?_range lt]
    rfl
  refine firstCovering_of_first (fun j lt => ?_) (entry h.listed) fun b read => ?_
  · obtain ⟨b, read, apart⟩ := (h.before j lt).covers_eq_false
    exact ⟨b, by rw [entry (Nat.lt_trans lt h.listed), read], apart⟩
  · refine (TryBlock.covers_iff (start_lt_of_block read) address).mpr ?_
    exact Decidable.byContradiction fun apart => h.not_passed ⟨b, read, apart⟩

theorem endsAt_iff_of_ok {i : Nat} {b : TryBlock} (read : t.block i = .ok b) :
    t.EndsAt address i ↔ b.Covers address ∧ ∀ j < i, t.Passes address j := by
  constructor
  · rintro ⟨-, before, not_passed⟩
    exact ⟨Decidable.byContradiction fun apart => not_passed ⟨b, read, apart⟩, before⟩
  · rintro ⟨covers, before⟩
    refine ⟨lt_count_of_block read, before, ?_⟩
    rintro ⟨b', read', apart⟩
    cases read.symm.trans read'
    exact apart covers

theorem endsAt_iff_of_error {i : Nat} {e : DecodeError} (read : t.block i = .error e) :
    t.EndsAt address i ↔ i < t.count ∧ ∀ j < i, t.Passes address j := by
  constructor
  · rintro ⟨listed, before, -⟩
    exact ⟨listed, before⟩
  · rintro ⟨listed, before⟩
    refine ⟨listed, before, ?_⟩
    rintro ⟨b, read', -⟩
    cases read.symm.trans read'

/-! ## 2. Answers -/

-- Only where the search ends at an entry, there is something to be given as the answer.
theorem blockAt_eq_map_iff {r : Except DecodeError TryBlock} :
    t.blockAt address = some <$> r ↔ ∃ i, t.EndsAt address i ∧ t.block i = r := by
  constructor
  · intro eq
    rcases passes_or_ends t address with passes | ⟨i, ends⟩
    · rw [blockAt_of_passes passes] at eq
      cases r <;> cases eq
    · rw [blockAt_of_endsAt ends] at eq
      refine ⟨i, ends, ?_⟩
      cases read : t.block i <;> rw [read] at eq <;> cases r <;> cases eq <;> rfl
  · rintro ⟨i, ends, rfl⟩
    exact blockAt_of_endsAt ends

theorem blockAt_eq_some_iff {b : TryBlock} : t.blockAt address = .ok (some b) ↔
    ∃ i < t.count, t.block i = .ok b ∧ b.Covers address ∧ ∀ j < i, t.Passes address j := by
  rw [show (Except.ok (some b) : Except DecodeError _) = some <$> .ok b from rfl,
    blockAt_eq_map_iff]
  constructor
  · rintro ⟨i, ends, read⟩
    exact ⟨i, ends.listed, read, (endsAt_iff_of_ok read).mp ends⟩
  · rintro ⟨i, -, read, ends⟩
    exact ⟨i, (endsAt_iff_of_ok read).mpr ends, read⟩

theorem blockAt_eq_error_iff {e : DecodeError} : t.blockAt address = .error e ↔
    ∃ i < t.count, t.block i = .error e ∧ ∀ j < i, t.Passes address j := by
  rw [show (Except.error e : Except DecodeError (Option TryBlock)) = some <$> .error e from rfl,
    blockAt_eq_map_iff]
  constructor
  · rintro ⟨i, ends, read⟩
    exact ⟨i, ends.listed, read, ends.before⟩
  · rintro ⟨i, listed, read, before⟩
    exact ⟨i, (endsAt_iff_of_error read).mpr ⟨listed, before⟩, read⟩

theorem blockAt_eq_none_iff :
    t.blockAt address = .ok none ↔ ∀ i < t.count, t.Passes address i := by
  refine ⟨fun ok => ?_, blockAt_of_passes⟩
  rcases passes_or_ends t address with passes | ⟨i, ends⟩
  · exact passes
  · rw [blockAt_of_endsAt ends] at ok
    cases read : t.block i <;> rw [read] at ok <;> cases ok

end

/-- No address is covered by two of the entries that can be read. -/
def Apart (t : TryTable) : Prop := ∀ i j x y, i ≠ j → t.block i = .ok x → t.block j = .ok y →
  ∀ address, ¬ (x.Covers address ∧ y.Covers address)

-- In such a table a block that covers an address is found wherever it stands.
theorem blockAt_of_apart {t : TryTable} (apart : t.Apart) {address : UInt32} {i : Nat}
    {b : TryBlock} (read : t.block i = .ok b) (covers : b.Covers address)
    (before : ∀ j < i, ∃ x, t.block j = .ok x) :
    t.blockAt address = .ok (some b) ∧ ∀ j x, t.block j = .ok x → x.Covers address → j = i := by
  have unique (j : Nat) (x : TryBlock) (read' : t.block j = .ok x) (covers' : x.Covers address) :
      j = i :=
    Decidable.byContradiction fun ne => apart j i x b ne read' read address ⟨covers', covers⟩
  refine ⟨blockAt_eq_some_iff.mpr ⟨i, lt_count_of_block read, read, covers, fun j lt => ?_⟩, unique⟩
  obtain ⟨x, read'⟩ := before j lt
  exact ⟨x, read', fun covers' => Nat.ne_of_lt lt (unique j x read' covers')⟩

-- What is found is found in every image that has the same entries up to the one that is found.
theorem blockAt_of_sameOn_start {t : TryTable} {address : UInt32} {i : Nat} {b : TryBlock}
    (read : t.block i = .ok b) (covers : b.Covers address) (before : ∀ j < i, t.Passes address j)
    {image : ByteArray} (same : Bytes.SameOn t.image image t.triesStart
      (t.triesStart + CodeHeader.tryItemSize * (i + 1))) :
    ({ t with image } : TryTable).blockAt address = .ok (some b) := by
  have entry {j : Nat} (le : j ≤ i) : ({ t with image } : TryTable).block j = t.block j :=
    block_of_sameOn_start (Nat.lt_succ_of_le le) same
  have listed : i < t.count := lt_count_of_block read
  refine blockAt_eq_some_iff.mpr ⟨i, listed, ?_, covers, fun j lt => ?_⟩
  · rw [entry (Nat.le_refl i), read]
  · obtain ⟨x, read', apart⟩ := before j lt
    exact ⟨x, by rw [entry (Nat.le_of_lt lt), read'], apart⟩

end TryTable

/-! ## 3. Bodies -/

namespace MethodBody

open Bytes

-- The table keeps what the body has been opened with, as far as it has entries that need it.
theorem exists_tryTable {b : MethodBody}
    (inside : b.header.codeOffset + CodeHeader.byteSize < 2 ^ 63) :
    ∃ t, b.tryTable = .ok t ∧ t.image = b.image ∧ t.count = b.header.tries.toNat ∧
      (0 < t.count → t.codeSize = b.header.codeSize ∧ t.limits = b.limits) := by
  rw [tryTable, CodeHeader.triesStart_eq inside, CodeHeader.handlersStart_eq inside]
  by_cases none : b.header.tries = 0
  · rw [if_pos none, none]
    exact ⟨_, rfl, rfl, rfl, fun some => absurd some (Nat.lt_irrefl 0)⟩
  · rw [if_neg none]
    exact ⟨_, rfl, rfl, rfl, fun _ => ⟨rfl, rfl⟩⟩

theorem tryTable_withImage (b : MethodBody) (image : ByteArray) :
    ({ b with image } : MethodBody).tryTable =
      (fun t : TryTable => { t with image }) <$> b.tryTable := by
  rw [tryTable, tryTable]
  by_cases none : b.header.tries = 0
  · rw [if_pos none, if_pos none]
    rfl
  · rw [if_neg none, if_neg none]
    cases b.header.triesStart with
    | error e => rfl
    | ok triesStart => cases b.header.handlersStart <;> rfl

/-- The try block at an address is that of the first entry that covers it, if all entries before this
one can be read.  An entry that cannot be read gives its failure as the answer if no entry before it
covers the address, and there is no block if all entries can be read and none covers it.  So nothing
behind the entry that is found has a part in the answer; where no address is covered twice, the
answer is the only entry that covers the address; and where ranges are checked, nothing is found
behind the code. -/
theorem tryBlockAt_first_covering {image : ByteArray} (image_lt : image.size < 2 ^ 63)
    {codeOffset : Nat} {context : MethodContext} {limits : Limits} {b : MethodBody}
    (opened : read image codeOffset context limits = .ok b) :
    ∃ t, b.tryTable = .ok t ∧ t.count = b.header.tries.toNat ∧
      (∀ address,
        (∀ found, b.tryBlockAt address = .ok (some found) ↔ ∃ i < t.count,
          t.block i = .ok found ∧ found.Covers address ∧ ∀ j < i, t.Passes address j) ∧
        (∀ e, b.tryBlockAt address = .error e ↔ ∃ i < t.count,
          t.block i = .error e ∧ ∀ j < i, t.Passes address j) ∧
        (b.tryBlockAt address = .ok none ↔ ∀ i < t.count, t.Passes address i)) ∧
      (∀ address i found, t.block i = .ok found → found.Covers address →
        (∀ j < i, t.Passes address j) →
        ∀ image', SameOn image image' codeOffset (codeOffset + CodeHeader.byteSize) →
          SameOn image image' t.triesStart
            (t.triesStart + CodeHeader.tryItemSize * (i + 1)) →
          ∃ b', read image' codeOffset context limits = .ok b' ∧
            b'.tryBlockAt address = .ok (some found)) ∧
      (t.Apart → ∀ address i found, t.block i = .ok found → found.Covers address →
        (∀ j < i, ∃ x, t.block j = .ok x) →
        b.tryBlockAt address = .ok (some found) ∧
          ∀ j x, t.block j = .ok x → x.Covers address → j = i) ∧
      (limits.validateTryRanges → ∀ address, b.header.codeSize ≤ address →
        ∀ found, b.tryBlockAt address ≠ .ok (some found)) := by
  obtain ⟨rfl, header, -, rfl⟩ := of_read opened
  obtain ⟨rfl, fits⟩ := CodeHeader.place_of_read header
  obtain ⟨t, table, image_eq, count_eq, kept⟩ := exists_tryTable (Nat.lt_of_le_of_lt fits image_lt)
  have search (address : UInt32) : b.tryBlockAt address = t.blockAt address := by
    rw [tryBlockAt, table]
    rfl
  refine ⟨t, table, count_eq, fun address => ?_, ?_, fun apart address i found => ?_, ?_⟩
  · rw [search]
    exact ⟨fun _ => TryTable.blockAt_eq_some_iff, fun _ => TryTable.blockAt_eq_error_iff,
      TryTable.blockAt_eq_none_iff⟩
  · intro address i found block covers before image' same same_start
    refine ⟨{ b with image := image' }, ?_, ?_⟩
    · rw [read_of_sameOn same, opened]
      rfl
    · rw [← image_eq] at same_start
      rw [tryBlockAt, tryTable_withImage, table]
      exact TryTable.blockAt_of_sameOn_start block covers before same_start
  · rw [search]
    exact TryTable.blockAt_of_apart apart
  · intro checked address behind found ok
    rw [search] at ok
    obtain ⟨i, listed, block, ⟨-, lt⟩, -⟩ := TryTable.blockAt_eq_some_iff.mp ok
    obtain ⟨codeSize_eq, limits_eq⟩ := kept (Nat.lt_of_le_of_lt (Nat.zero_le i) listed)
    rw [← limits_eq] at checked
    have inCode : _ ≤ t.codeSize.toNat := TryTable.inCode_of_block checked block
    rw [codeSize_eq] at inCode
    have le : b.header.codeSize.toNat ≤ address.toNat := UInt32.le_iff_toNat_le.mp behind
    exact Nat.lt_irrefl _ (Nat.lt_of_lt_of_le lt (Nat.le_trans inCode le))

/-- A body with two code units and two try blocks.  The first block covers the first unit, and of the
second one only an address that is too large is in the image. -/
def damaged : ByteArray :=
  ⟨#[0x01, 0x00, 0x00, 0x00, 0x00, 0x00, 0x02, 0x00, 0x00, 0x00, 0x00, 0x00, 0x02, 0x00, 0x00, 0x00,
    0x00, 0x00, 0x0e, 0x00, 0x00, 0x00, 0x00, 0x00, 0x01, 0x00, 0x00, 0x00, 0x00, 0x00, 0x00, 0x80]⟩

theorem tryBlockAt_first_covering_of_damaged : damaged.size < 2 ^ 63 ∧
    ∃ b, read damaged 0 .unknown .strict = .ok b ∧
      b.tryBlockAt 0 = .ok (some ⟨0, 1, 0⟩) ∧
      b.tryBlockAt 1 = .error (.malformed (.smallFieldOutOfRange 28)) ∧
      b.tryBlockAt 2 ≠ .ok (some ⟨0, 1, 0⟩) := by
  have image_lt : damaged.size < 2 ^ 63 := by decide
  have opened : read damaged 0 .unknown .strict =
    .ok ⟨damaged, ⟨0, 1, 0, 0, 2, 0, 2⟩, 20, .unknown, .strict⟩ := rfl
  obtain ⟨t, table, -, answers, -, -, nothing_behind⟩ := tryBlockAt_first_covering image_lt opened
  cases table
  obtain ⟨found_iff, -, -⟩ := answers 0
  obtain ⟨-, failed_iff, -⟩ := answers 1
  refine ⟨image_lt, _, opened, (found_iff _).mpr ⟨0, by decide, rfl, by decide, nofun⟩,
    (failed_iff _).mpr ⟨1, by decide, rfl, fun j lt => ?_⟩, nothing_behind rfl 2 (by decide) _⟩
  obtain rfl := Nat.lt_one_iff.mp lt
  exact ⟨⟨0, 1, 0⟩, rfl, by decide⟩

end MethodBody

end DalvikCode
