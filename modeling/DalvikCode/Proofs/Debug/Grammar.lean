import DalvikCode.Debug.Encoding
import DalvikCode.Proofs.Leb128

/-!
# The grammar of debug programs

Which bytes an operation and a header are read from.  Numbers may be encoded at any length that the
format admits, so an operation has several encodings; the ranges of its arguments are part of the
grammar.
-/

namespace DalvikCode

open Leb128

/-! ## 1. Operations -/

namespace DebugOp

def opcode : DebugOp → Nat
  | endSequence => 0x00
  | advancePc _ => 0x01
  | advanceLine _ => 0x02
  | startLocal .. => 0x03
  | startLocalExtended .. => 0x04
  | endLocal _ => 0x05
  | restartLocal _ => 0x06
  | prologueEnd => 0x07
  | epilogueBegin => 0x08
  | setFile _ => 0x09
  | special step => 0x0a + step.val

/-- The bytes are an encoding of the arguments of the operation. -/
def Arguments : DebugOp → List UInt8 → Prop
  | advancePc delta, bs => Small delta.toNat bs
  | advanceLine delta, bs => Word delta bs
  | startLocal register name? type?, bs => ∃ xs ys zs, Small register.toNat xs ∧ Index name? ys ∧
      Index type? zs ∧ bs = xs ++ (ys ++ zs)
  | startLocalExtended register name? type? signature?, bs => ∃ xs ys zs ws,
      Small register.toNat xs ∧ Index name? ys ∧ Index type? zs ∧ Index signature? ws ∧
      bs = xs ++ (ys ++ (zs ++ ws))
  | endLocal register, bs | restartLocal register, bs => Small register.toNat bs
  | setFile name?, bs => Index name? bs
  | endSequence, bs | prologueEnd, bs | epilogueBegin, bs | special _, bs => bs = []

/-- The bytes are an encoding of the operation. -/
def Encodes (op : DebugOp) (bs : List UInt8) : Prop :=
  ∃ arguments, op.Arguments arguments ∧ bs = UInt8.ofNat op.opcode :: arguments

theorem opcode_lt (op : DebugOp) : op.opcode < 0x100 := by
  cases op with
  | special step =>
    have := step.isLt
    simp only [opcode]
    omega
  | _ => simp [opcode]

-- The operations of one opcode are told apart by their arguments.
theorem behind_iff {α : Type} {make : α → DebugOp} {G : α → List UInt8 → Prop} {n : Nat}
    (opcode : ∀ a, (make a).opcode = n) (arguments : ∀ a rest, (make a).Arguments rest ↔ G a rest)
    (only : ∀ op, op.opcode = n → ∃ a, op = make a) (op : DebugOp) (rest : List UInt8) :
    (∃ a, G a rest ∧ op = make a) ↔ op.opcode = n ∧ op.Arguments rest := by
  constructor
  · rintro ⟨a, encoded, rfl⟩
    exact ⟨opcode a, (arguments a rest).mpr encoded⟩
  · rintro ⟨same, encoded⟩
    obtain ⟨a, rfl⟩ := only op same
    exact ⟨a, (arguments a rest).mp encoded, rfl⟩

theorem plain_iff {plain : DebugOp} {n : Nat} (opcode : plain.opcode = n)
    (arguments : ∀ rest, plain.Arguments rest ↔ rest = [])
    (only : ∀ op, op.opcode = n → op = plain) (op : DebugOp) (rest : List UInt8) :
    op = plain ∧ rest = [] ↔ op.opcode = n ∧ op.Arguments rest := by
  constructor
  · rintro ⟨rfl, empty⟩
    exact ⟨opcode, (arguments rest).mpr empty⟩
  · rintro ⟨same, encoded⟩
    obtain rfl := only op same
    exact ⟨rfl, (arguments rest).mp encoded⟩

-- A case for each opcode, as the reader tells them apart.
theorem parses_read : Parses DebugOp.read Encodes := by
  refine (Parses.cons (H := fun b op rest => op.opcode = b.toNat ∧ op.Arguments rest)
    fun b => ?_).congr fun op bs => ?_
  · split
    · next found =>
      rw [found]
      exact (Parses.pure _).congr
        (plain_iff rfl (fun _ => .rfl) fun op same => by cases op <;> grind [opcode])
    · next found =>
      rw [found]
      exact (parses_small.bind_pure _).congr
        (behind_iff (fun _ => rfl) (fun _ _ => .rfl) fun op same => by cases op <;> grind [opcode])
    · next found =>
      rw [found]
      exact (parses_signed.bind_pure _).congr
        (behind_iff (fun _ => rfl) (fun _ _ => .rfl) fun op same => by cases op <;> grind [opcode])
    · next found =>
      rw [found]
      refine Parses.congr (parses_small.bind fun register => parses_index?.bind fun name? =>
        parses_index?.bind_pure _) fun op rest => ?_
      constructor
      · rintro ⟨register, xs, _, hr, ⟨name?, ys, zs, hn, ⟨type?, ht, rfl⟩, rfl⟩, rfl⟩
        exact ⟨rfl, xs, ys, zs, hr, hn, ht, rfl⟩
      · rintro ⟨same, arguments⟩
        obtain ⟨register, name?, type?, rfl⟩ :
            ∃ register name? type?, op = startLocal register name? type? := by
          cases op <;> grind [opcode]
        obtain ⟨xs, ys, zs, hr, hn, ht, rfl⟩ := arguments
        exact ⟨register, xs, _, hr, ⟨name?, ys, zs, hn, ⟨type?, ht, rfl⟩, rfl⟩, rfl⟩
    · next found =>
      rw [found]
      refine Parses.congr (parses_small.bind fun register => parses_index?.bind fun name? =>
        parses_index?.bind fun type? => parses_index?.bind_pure _) fun op rest => ?_
      constructor
      · rintro ⟨register, xs, _, hr, ⟨name?, ys, _, hn, ⟨type?, zs, ws, ht, ⟨signature?, hs, rfl⟩,
          rfl⟩, rfl⟩, rfl⟩
        exact ⟨rfl, xs, ys, zs, ws, hr, hn, ht, hs, rfl⟩
      · rintro ⟨same, arguments⟩
        obtain ⟨register, name?, type?, signature?, rfl⟩ : ∃ register name? type? signature?,
            op = startLocalExtended register name? type? signature? := by
          cases op <;> grind [opcode]
        obtain ⟨xs, ys, zs, ws, hr, hn, ht, hs, rfl⟩ := arguments
        exact ⟨register, xs, _, hr, ⟨name?, ys, _, hn, ⟨type?, zs, ws, ht, ⟨signature?, hs, rfl⟩,
          rfl⟩, rfl⟩, rfl⟩
    · next found =>
      rw [found]
      exact (parses_small.bind_pure _).congr
        (behind_iff (fun _ => rfl) (fun _ _ => .rfl) fun op same => by cases op <;> grind [opcode])
    · next found =>
      rw [found]
      exact (parses_small.bind_pure _).congr
        (behind_iff (fun _ => rfl) (fun _ _ => .rfl) fun op same => by cases op <;> grind [opcode])
    · next found =>
      rw [found]
      exact (Parses.pure _).congr
        (plain_iff rfl (fun _ => .rfl) fun op same => by cases op <;> grind [opcode])
    · next found =>
      rw [found]
      exact (Parses.pure _).congr
        (plain_iff rfl (fun _ => .rfl) fun op same => by cases op <;> grind [opcode])
    · next found =>
      rw [found]
      exact (parses_index?.bind_pure _).congr
        (behind_iff (fun _ => rfl) (fun _ _ => .rfl) fun op same => by cases op <;> grind [opcode])
    · have lt := b.toNat_lt
      have ge : 0x0a ≤ b.toNat := by grind
      refine (Parses.pure _).congr (plain_iff ?_ (fun _ => .rfl) fun op same => ?_)
      · show 0x0a + (b.toNat - 0x0a) % 246 = b.toNat
        omega
      · obtain ⟨step, rfl⟩ : ∃ step, op = special step := by cases op <;> grind [opcode]
        refine congrArg special (Fin.ext ?_)
        have := step.isLt
        show step.val = (b.toNat - 0x0a) % 246
        simp only [opcode] at same
        omega
  · constructor
    · rintro ⟨b, rest, ⟨same, arguments⟩, rfl⟩
      exact ⟨rest, arguments, by rw [same, UInt8.ofNat_toNat]⟩
    · rintro ⟨rest, arguments, rfl⟩
      exact ⟨_, rest, ⟨(UInt8.toNat_ofNat_of_lt' op.opcode_lt).symm, arguments⟩, rfl⟩

/-- The ranges of the arguments of an operation. -/
def InRange : DebugOp → Prop
  | advancePc delta => delta.toNat < 2 ^ 31
  | startLocal register name? type? => register.toNat < 2 ^ 31 ∧
      (∀ i ∈ name?, i.toNat + 1 < 2 ^ 32) ∧ ∀ i ∈ type?, i.toNat + 1 < 2 ^ 32
  | startLocalExtended register name? type? signature? => register.toNat < 2 ^ 31 ∧
      (∀ i ∈ name?, i.toNat + 1 < 2 ^ 32) ∧ (∀ i ∈ type?, i.toNat + 1 < 2 ^ 32) ∧
      ∀ i ∈ signature?, i.toNat + 1 < 2 ^ 32
  | endLocal register | restartLocal register => register.toNat < 2 ^ 31
  | setFile name? => ∀ i ∈ name?, i.toNat + 1 < 2 ^ 32
  | _ => True

theorem encodes_encode {op : DebugOp} (inRange : op.InRange) : op.Encodes op.encode := by
  cases op with
  | endSequence | prologueEnd | epilogueBegin | special => exact ⟨[], rfl, rfl⟩
  | advancePc delta => exact ⟨_, small_ofUnsigned inRange, rfl⟩
  | advanceLine delta => exact ⟨_, word_ofSigned delta, rfl⟩
  | startLocal register name? type? =>
    obtain ⟨hr, hn, ht⟩ := inRange
    exact ⟨_, ⟨_, _, _, small_ofUnsigned hr, index_ofIndex? hn, index_ofIndex? ht, rfl⟩,
      by rw [← List.append_assoc]; rfl⟩
  | startLocalExtended register name? type? signature? =>
    obtain ⟨hr, hn, ht, hs⟩ := inRange
    exact ⟨_, ⟨_, _, _, _, small_ofUnsigned hr, index_ofIndex? hn, index_ofIndex? ht,
      index_ofIndex? hs, rfl⟩, by rw [← List.append_assoc, ← List.append_assoc]; rfl⟩
  | endLocal register | restartLocal register => exact ⟨_, small_ofUnsigned inRange, rfl⟩
  | setFile name? => exact ⟨_, index_ofIndex? inRange, rfl⟩

/-- The operations that have an encoding are those in range. -/
theorem exists_encodes_iff {op : DebugOp} : (∃ bs, op.Encodes bs) ↔ op.InRange := by
  refine ⟨?_, fun inRange => ⟨_, encodes_encode inRange⟩⟩
  rintro ⟨_, bs, arguments, rfl⟩
  cases op with
  | endSequence | advanceLine | prologueEnd | epilogueBegin | special => trivial
  | advancePc | endLocal | restartLocal => exact arguments.1
  | startLocal register name? type? =>
    obtain ⟨_, _, _, hr, hn, ht, -⟩ := arguments
    exact ⟨hr.1, hn.lt, ht.lt⟩
  | startLocalExtended register name? type? signature? =>
    obtain ⟨_, _, _, _, hr, hn, ht, hs, -⟩ := arguments
    exact ⟨hr.1, hn.lt, ht.lt, hs.lt⟩
  | setFile => exact Index.lt arguments

/-- The programs that have an encoding are those whose operations are in range. -/
theorem exists_row_iff {ops : List DebugOp} :
    (∃ bs, Row Encodes ops bs) ↔ ∀ op ∈ ops, op.InRange := by
  constructor
  · rintro ⟨bs, row⟩
    exact row.forall_mem fun op bs encodes => exists_encodes_iff.mp ⟨bs, encodes⟩
  · intro inRange
    exact ⟨_, .flatMap fun op mem => encodes_encode (inRange op mem)⟩

-- An operation takes at least the byte of its opcode.
theorem Encodes.length_pos {op : DebugOp} {bs : List UInt8} (h : op.Encodes bs) :
    0 < bs.length := by
  obtain ⟨arguments, -, rfl⟩ := h
  exact Nat.succ_pos _

end DebugOp

/-! ## 2. Headers -/

namespace DebugHeader

/-- The bytes are an encoding of the header. -/
def Encodes (h : DebugHeader) (bs : List UInt8) : Prop :=
  ∃ xs ys zs, Unsigned h.lineStart.toNat xs ∧ Small h.parameterNames.size ys ∧
    Row Index h.parameterNames.toList zs ∧ bs = xs ++ (ys ++ zs)

theorem parses_read : Parses DebugHeader.read Encodes := by
  refine Parses.congr (parses_unsigned.bind fun lineStart => parses_small.bind fun count =>
    (parses_index?.times count.toNat).bind_pure _) fun h bs => ?_
  constructor
  · rintro ⟨lineStart, xs, _, hl, ⟨count, ys, zs, hc, ⟨names, ⟨size, hn⟩, rfl⟩, rfl⟩, rfl⟩
    exact ⟨xs, ys, zs, hl, by rw [size]; exact hc, hn, rfl⟩
  · rintro ⟨xs, ys, zs, hl, hc, hn, rfl⟩
    have size : (UInt32.ofNat h.parameterNames.size).toNat = h.parameterNames.size :=
      UInt32.toNat_ofNat_of_lt' (Nat.lt_trans hc.1 (by decide))
    exact ⟨h.lineStart, xs, _, hl, ⟨UInt32.ofNat h.parameterNames.size, ys, zs, by rwa [size],
      ⟨h.parameterNames, ⟨size.symm, hn⟩, rfl⟩, rfl⟩, rfl⟩

/-- The ranges of the numbers in a header. -/
def InRange (h : DebugHeader) : Prop :=
  h.parameterNames.size < 2 ^ 31 ∧
    ∀ name? ∈ h.parameterNames.toList, ∀ i ∈ name?, i.toNat + 1 < 2 ^ 32

theorem encodes_encode {h : DebugHeader} (inRange : h.InRange) : h.Encodes h.encode := by
  obtain ⟨few, names⟩ := inRange
  have size : (UInt32.ofNat h.parameterNames.size).toNat = h.parameterNames.size :=
    UInt32.toNat_ofNat_of_lt' (Nat.lt_trans few (by decide))
  have count := small_ofUnsigned (size.symm ▸ few)
  rw [size] at count
  exact ⟨_, _, _, unsigned_ofUnsigned h.lineStart.toNat_lt, count,
    .flatMap fun name? mem => index_ofIndex? (names name? mem), List.append_assoc _ _ _⟩

/-- The headers that have an encoding are those in range. -/
theorem exists_encodes_iff {h : DebugHeader} : (∃ bs, h.Encodes bs) ↔ h.InRange := by
  refine ⟨?_, fun inRange => ⟨_, encodes_encode inRange⟩⟩
  rintro ⟨_, xs, ys, zs, -, count, names, rfl⟩
  exact ⟨count.1, names.forall_mem (P := fun name? => ∀ i ∈ name?, i.toNat + 1 < 2 ^ 32)
    fun _ _ => Index.lt⟩

end DebugHeader

end DalvikCode
