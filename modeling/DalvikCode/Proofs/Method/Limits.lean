import DalvikCode.Proofs.Debug.Limits
import DalvikCode.Proofs.Method.Opening
import DalvikCode.Proofs.Method.TryTable

/-!
# Bodies under lower limits

Limits decide what is refused, not what is read.  So lower limits give the outcomes of greater ones,
except that more of what an image holds counts as malformed.
-/

namespace DalvikCode.MethodBody

open DebugInfo (Traversal.Yields)

/-- The same body, to be explored under other limits. -/
def under (limits : Limits) (b : MethodBody) : MethodBody := { b with limits }

theorem read_under (image : ByteArray) (codeOffset : Nat) (context : MethodContext)
    (limits greater : Limits) : read image codeOffset context limits =
      (·.under limits) <$> read image codeOffset context greater := by
  rw [read, read]
  cases CodeHeader.read image codeOffset with
  | error e => rfl
  | ok header =>
    rw [ok_bind, ok_bind]
    cases header.instructionsStop <;> rfl

-- The table of a body without try blocks has limits of its own, which nothing looks at.
theorem tryTable_under (b : MethodBody) (limits : Limits) :
    (b.under limits).tryTable = b.tryTable ∨
      (b.under limits).tryTable = (·.under limits) <$> b.tryTable ∧
        ∀ t, b.tryTable = .ok t → t.limits = b.limits := by
  rw [tryTable, tryTable, show (b.under limits).header = b.header from rfl]
  by_cases none : b.header.tries = 0
  · rw [if_pos none, if_pos none]
    exact .inl rfl
  · rw [if_neg none, if_neg none]
    refine .inr ?_
    cases b.header.triesStart with
    | error e => exact ⟨rfl, nofun⟩
    | ok triesStart =>
      cases b.header.handlersStart with
      | error e => exact ⟨rfl, nofun⟩
      | ok handlersStart => exact ⟨rfl, by rintro t ⟨⟩; rfl⟩

section
variable {b : MethodBody} {limits : Limits}

theorem block_under (ranges : b.limits.validateTryRanges → limits.validateTryRanges) (index : Nat) :
    CutsOff (do (← (b.under limits).tryTable).block index) (do (← b.tryTable).block index) := by
  rcases b.tryTable_under limits with same | ⟨other, limited⟩
  · rw [same]
    exact .inl rfl
  · rw [other]
    cases table : b.tryTable with
    | error e => exact .inl rfl
    | ok t =>
      rw [← limited t table] at ranges
      exact TryTable.block_under ranges index

-- A block that is obtained under both limits is one block.
theorem handlers_under (le : limits.maxHandlers ≤ b.limits.maxHandlers)
    (ranges : b.limits.validateTryRanges → limits.validateTryRanges) {index : Nat}
    {t t' : TryTable} {block block' : TryBlock} (table : (b.under limits).tryTable = .ok t)
    (table' : b.tryTable = .ok t') (found : t.block index = .ok block)
    (found' : t'.block index = .ok block') : CutsOff (t.handlers block) (t'.handlers block') := by
  rcases b.tryTable_under limits with same | ⟨other, limited⟩
  · rw [same, table'] at table
    cases table
    rw [found'] at found
    cases found
    exact .inl rfl
  · rw [other, table'] at table
    cases table
    rw [← limited t' table'] at le ranges
    rcases TryTable.block_under ranges index with same | ⟨what, refused⟩
    · rw [found, found'] at same
      cases same
      exact TryTable.handlers_under le block
    · rw [found] at refused
      cases refused

end

/-- Lower limits cut off what greater ones let through, and change nothing else: a body opens alike,
a block and the handlers of a block come out alike or are malformed, and a walk through the debug
items yields the same results as far as the limit on their number goes. -/
theorem limits_cut_off (image : ByteArray) (codeOffset : Nat) (context : MethodContext)
    (limits greater : Limits) (handlers : limits.maxHandlers ≤ greater.maxHandlers)
    (items : limits.maxDebugItems ≤ greater.maxDebugItems)
    (ranges : greater.validateTryRanges → limits.validateTryRanges) :
    read image codeOffset context limits =
      (·.under limits) <$> read image codeOffset context greater ∧
    ∀ b b', read image codeOffset context limits = .ok b →
      read image codeOffset context greater = .ok b' →
      (∀ index, CutsOff (do (← b.tryTable).block index) (do (← b'.tryTable).block index)) ∧
      (∀ index t t' block block', b.tryTable = .ok t → b'.tryTable = .ok t' →
        t.block index = .ok block → t'.block index = .ok block' →
        CutsOff (t.handlers block) (t'.handlers block')) ∧
      ∀ (trace : Trace DebugItem) u', Traversal.Yields b'.debugInfo.traversal trace.results.toList u' →
        ∃ u, Traversal.Yields b.debugInfo.traversal
          (trace.cutTo limits.maxDebugItems).results.toList u := by
  refine ⟨read_under image codeOffset context limits greater, fun b b' opened opened' => ?_⟩
  obtain ⟨-, -, -, rfl⟩ := of_read opened'
  rw [read_under image codeOffset context limits b'.limits, opened'] at opened
  cases opened
  exact ⟨block_under ranges,
    fun _ _ _ _ _ table table' found found' =>
      handlers_under handlers ranges table table' found found',
    fun _ _ yields => ⟨_, DebugInfo.Traversal.yields_under items yields⟩⟩

/-- A body with one code unit, a try block of two units, a record of two typed handlers, and a debug
program of two items. -/
def overLimits : ByteArray :=
  ⟨#[0x01, 0x00, 0x00, 0x00, 0x00, 0x00, 0x01, 0x00, 0x22, 0x00, 0x00, 0x00, 0x01, 0x00, 0x00, 0x00,
    0x0e, 0x00, 0x00, 0x00, 0x00, 0x00, 0x00, 0x00, 0x02, 0x00, 0x01, 0x00,
    0x01, 0x02, 0x00, 0x00, 0x00, 0x00, 0x01, 0x00, 0x07, 0x08, 0x00]⟩

theorem limits_cut_off_second_item :
    let limits : Limits := ⟨1, 1, true⟩
    limits.maxHandlers ≤ Limits.standard.maxHandlers ∧
      limits.maxDebugItems ≤ Limits.standard.maxDebugItems ∧
      (Limits.standard.validateTryRanges → limits.validateTryRanges) ∧
      ∃ b u, read overLimits 0 .unknown limits = .ok b ∧ Traversal.Yields b.debugInfo.traversal
        [.ok ⟨0, .prologueEnd⟩, .error (.malformed (.tooManyDebugItems 1))] u := by
  intro limits
  have handlers : limits.maxHandlers ≤ Limits.standard.maxHandlers := by decide
  have items : limits.maxDebugItems ≤ Limits.standard.maxDebugItems := by decide
  have ranges : Limits.standard.validateTryRanges → limits.validateTryRanges := by decide
  obtain ⟨-, outcomes⟩ :=
    limits_cut_off overLimits 0 .unknown limits .standard handlers items ranges
  let b : MethodBody := ⟨overLimits, ⟨0, 1, 0, 0, 1, 34, 1⟩, 18, .unknown, limits⟩
  have walk : Traversal.Yields (b.under .standard).debugInfo.traversal
    [.ok ⟨0, .prologueEnd⟩, .ok ⟨0, .epilogueBegin⟩] _ := .next rfl (.next rfl (.ended rfl rfl))
  obtain ⟨-, -, cut⟩ := outcomes b (b.under .standard) rfl rfl
  obtain ⟨u, yields⟩ := cut ⟨#[⟨0, .prologueEnd⟩, ⟨0, .epilogueBegin⟩], none⟩ _
    (by rw [Trace.toList_results]; exact walk)
  rw [Trace.toList_results] at yields
  exact ⟨handlers, items, ranges, b, u, rfl, yields⟩

end DalvikCode.MethodBody
