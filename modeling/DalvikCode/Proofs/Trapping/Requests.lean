import DalvikCode.Proofs.Requests
import DalvikCode.Proofs.Trapping.Access

/-!
# Requests in a row on machine words

A cursor is asked for one thing after the other, and goes on after failures.  As it never stands
behind the end of its slice, no request traps, whatever positions and lengths it names.
-/

namespace DalvikCode.Trapping

/-! ## 1. One request -/

def lebNumber : (kind : Leb128.Kind) → Execution kind.Answer
  | .unsigned => unsigned
  | .small => small
  | .index => index?
  | .signed => signed

/-- The execution of a request. -/
def execution : (q : Request) → Execution q.Answer
  | .seek pos => seek pos
  | .skip n => skip n
  | .align n _ => align n
  | .peek s => peek s
  | .scalar s => scalar s
  | .leb128 kind => lebNumber kind
  | .decode address => decode address

theorem agrees_lebNumber {low : Nat} (kind : Leb128.Kind) :
    Agrees low (lebNumber kind) kind.reader := by
  cases kind with
  | unsigned => exact agrees_unsigned
  | small => exact agrees_small
  | index => exact agrees_index?
  | signed => exact agrees_signed

theorem execution_eq (q : Request) {c : Cursor} (memory : InMemory c) :
    execution q c = ofReader q.reader c := by
  cases q with
  | seek pos => exact seek_eq pos c
  | skip n => exact (Agrees.skip n).eq_of_inMemory memory
  | align n positive => exact (agrees_align positive).eq_of_inMemory memory
  | peek s => exact peek_eq s c memory.size_lt
  | scalar s => exact scalar_eq s c memory.size_lt
  | leb128 kind => exact (agrees_lebNumber kind).eq_of_inMemory memory
  | decode address => exact (agrees_decode address).eq_of_inMemory memory

/-! ## 2. Requests in a row -/

/-- Asks for one thing after the other, also after failures, until the program stops. -/
def askAll : List Request → Cursor → Except Trap Cursor
  | [], c => .ok c
  | q :: rest, c =>
    match execution q c with
    | .ok _ c' => askAll rest c'
    | .error (.failed _) c' => askAll rest c'
    | .error (.trap t) _ => .error t

theorem askAll_cons {q : Request} {c : Cursor} (memory : InMemory c) (rest : List Request) :
    askAll (q :: rest) c = askAll rest (q.reader.after c) := by
  rw [askAll, execution_eq q memory, ofReader, Reader.after]
  cases q.reader c <;> rfl

theorem inMemory_after {c : Cursor} (memory : InMemory c) (q : Request) :
    InMemory (q.reader.after c) := by
  obtain ⟨same, inside⟩ := q.after_inside memory.pos_le
  exact ⟨same ▸ inside, same ▸ memory.size_lt⟩

theorem askAll_eq {c : Cursor} (memory : InMemory c) (done : List Request) :
    askAll done c = .ok (c.afterAll done) := by
  induction done generalizing c with
  | nil => rfl
  | cons q rest ih =>
    rw [askAll_cons memory]
    exact ih (inMemory_after memory q)

/-- Whatever a cursor has been asked for, and however often it has failed, it stands in its data,
and the next request finds it as `Cursor.Sound` says.  In a slice, no request stops the program. -/
theorem requests_keep_cursor {data : ByteArray} {first : Cursor}
    (starts : first = .start data ∨ ∃ pos, Cursor.at? data pos = .ok first)
    (done : List Request) : (first.afterAll done).Sound data ∧
    (data.size < 2 ^ 63 → askAll done first = .ok (first.afterAll done) ∧
      ∀ q : Request, execution q (first.afterAll done) =
        ofReader q.reader (first.afterAll done)) := by
  obtain ⟨rfl, within⟩ := Cursor.within_of_starts starts
  have sound := Cursor.sound_afterAll within done
  refine ⟨sound, fun size_lt => ⟨askAll_eq ⟨within, size_lt⟩ done, fun q => ?_⟩⟩
  apply execution_eq
  rw [← sound.data_eq] at size_lt
  exact ⟨sound.data_eq ▸ sound.pos_le, size_lt⟩

/-- A number of too many bits, and two bytes behind it. -/
def overlongNumber : ByteArray := ⟨#[0x80, 0x80, 0x80, 0x80, 0x10, 0x0e, 0x00]⟩

-- The number is refused behind its fifth byte; the value and the last move are refused on the spot.
theorem requests_keep_cursor_of_overlongNumber :
    let done : List Request := [.leb128 .unsigned, .align 3 (by decide), .scalar .u32,
      .skip (2 ^ 64 - 1)]
    Cursor.at? overlongNumber 0 = .ok (.start overlongNumber) ∧
      (⟨overlongNumber, 6⟩ : Cursor).Sound overlongNumber ∧
      askAll done (.start overlongNumber) = .ok ⟨overlongNumber, 6⟩ := by
  intro done
  have put : Cursor.at? overlongNumber 0 = .ok (.start overlongNumber) := rfl
  have stop : (Cursor.start overlongNumber).afterAll done = ⟨overlongNumber, 6⟩ := by
    decide +kernel
  obtain ⟨sound, machine⟩ := requests_keep_cursor (.inr ⟨0, put⟩) done
  rw [stop] at sound machine
  exact ⟨put, sound, (machine (by decide)).1⟩

end DalvikCode.Trapping
