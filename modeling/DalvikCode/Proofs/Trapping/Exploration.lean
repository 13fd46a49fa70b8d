import DalvikCode.Proofs.Trapping.Debug
import DalvikCode.Proofs.Trapping.Stream
import DalvikCode.Proofs.Trapping.TryTable

/-!
# Exploring a method on machine words

Whatever bytes an image holds, opening a method and asking for everything that is in it gives the
answers of `MethodBody` and does not trap.  Nor does a stream or a table whose offsets do not come
from a header.
-/

namespace DalvikCode.Trapping

/-- The first try block that covers an address. -/
def tryBlockAt (b : MethodBody) (address : UInt32) : Except Fault (Option TryBlock) := do
  blockAt (← tryTable b) address

/-- Whatever a caller asks of a body, the answer is that of the body; nothing traps. -/
structure BodyAgrees (b : MethodBody) : Prop where
  instructions : Trapping.instructions b = .ok b.instructions
  stream : ∀ s, Trapping.instructions b = .ok s → StreamAgrees s
  tryTable : Trapping.tryTable b = ofExcept b.tryTable
  table : ∀ t, Trapping.tryTable b = .ok t → TableAgrees t
  tryBlockAt : ∀ address, Trapping.tryBlockAt b address = ofExcept (b.tryBlockAt address)
  debugInfo : DebugAgrees b.debugInfo

theorem image_of_tryTable {b : MethodBody} {t : TryTable} (ok : b.tryTable = .ok t) :
    t.image = b.image := by
  rw [MethodBody.tryTable] at ok
  split at ok
  · cases ok
    rfl
  · obtain ⟨triesStart, -, ok⟩ := bind_eq_ok_iff.mp ok
    obtain ⟨handlersStart, -, ok⟩ := bind_eq_ok_iff.mp ok
    cases ok
    rfl

theorem bodyAgrees {b : MethodBody} (inside : InSlice b.header)
    (small : Representable b.debugInfo) : BodyAgrees b := by
  have image_lt : b.image.size < 2 ^ 63 := small.image_lt
  have table_lt : ∀ t, b.tryTable = .ok t → t.image.size < 2 ^ 63 := by
    intro t ok
    rw [image_of_tryTable ok]
    exact image_lt
  exact {
    instructions := instructions_eq inside
    stream := by
      intro s ok
      rw [instructions_eq inside, Except.ok.injEq] at ok
      subst ok
      exact streamAgrees rfl image_lt
    tryTable := tryTable_eq inside
    table := by
      intro t ok
      rw [tryTable_eq inside, ofExcept_eq_ok] at ok
      exact tableAgrees (table_lt t ok)
    tryBlockAt := fun address =>
      bind_of_eq (tryTable_eq inside) fun t ok => blockAt_eq (table_lt t ok) address
    debugInfo := debugAgrees small }

/-- No image makes the exploration of a method trap, wherever the method is said to stand.  The
hypotheses say that the image and the parameter types, of 24 bytes each, are slices, and that a
limit is a word. -/
theorem exploration_agrees (image : ByteArray) (image_lt : image.size < 2 ^ 63)
    (context : MethodContext) (parameters_lt : 24 * context.parameterTypes.length < 2 ^ 63)
    (limits : Limits) (items_lt : limits.maxDebugItems < 2 ^ 64) :
    (∀ codeOffset, openBody image codeOffset context limits =
      ofExcept (MethodBody.read image codeOffset context limits)) ∧
    (∀ codeOffset b, openBody image codeOffset context limits = .ok b → BodyAgrees b) ∧
    (∀ start stop, StreamAgrees { image, start, stop }) ∧
    ∀ triesStart handlersStart count codeSize,
      TableAgrees { image, triesStart, handlersStart, count, codeSize, limits } := by
  refine ⟨fun codeOffset => openBody_eq image_lt codeOffset context limits, ?_,
    fun start stop => streamAgrees rfl image_lt, fun _ _ _ _ => tableAgrees image_lt⟩
  intro codeOffset b ok
  rw [openBody_eq image_lt, ofExcept_eq_ok] at ok
  obtain ⟨rfl, header, rfl, rfl⟩ := MethodBody.of_read ok
  exact bodyAgrees (inSlice_of_read image_lt header) ⟨image_lt, parameters_lt, items_lt⟩

/-- A method with a catch-all and a line number. -/
def guarded : ByteArray := [
  0x02, 0x00, 0x00, 0x00, 0x00, 0x00, 0x01, 0x00, 0x1f, 0x00, 0x00, 0x00, 0x02, 0x00, 0x00, 0x00,
  0x00, 0x00, 0x0e, 0x00,
  0x00, 0x00, 0x00, 0x00, 0x02, 0x00, 0x01, 0x00,
  0x01, 0x00, 0x01,
  0x01, 0x00, 0x0e, 0x00].toByteArray

theorem exploration_agrees_of_guarded : (guarded.size < 2 ^ 63 ∧
    24 * MethodContext.unknown.parameterTypes.length < 2 ^ 63 ∧
    Limits.strict.maxDebugItems < 2 ^ 64) ∧
    (∃ b, openBody guarded 0 .unknown .strict = .ok b ∧ BodyAgrees b) ∧
    StreamAgrees ⟨guarded, 16, 20, Instruction.decode⟩ ∧
    TableAgrees ⟨guarded, 20, 28, 1, 2, .strict⟩ := by
  have agrees := exploration_agrees guarded (by decide) .unknown (by decide) .strict (by decide)
  have opened : openBody guarded 0 .unknown .strict = .ok {
      image := guarded
      header := ⟨0, 2, 0, 0, 1, 31, 2⟩
      codeStop := 20
      context := .unknown
      limits := .strict } := (agrees.1 0).trans rfl
  exact ⟨by decide, ⟨_, opened, agrees.2.1 0 _ opened⟩, agrees.2.2.1 16 20, agrees.2.2.2 20 28 1 2⟩

end DalvikCode.Trapping
