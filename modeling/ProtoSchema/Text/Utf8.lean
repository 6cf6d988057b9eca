/-!
# UTF-8

Characters as bytes and back. A lead byte fixes how many further bytes belong to the character
and which values the first of them may take; every later one lies in `80`–`BF`. `decode` stops at
the first flaw and says where it lies and of which sort it is.
-/

namespace ProtoSchema.Utf8

/-- The bytes of a code point below `110000`. Surrogate code points are given their three bytes
too, although no character has them. -/
def encodeCodePoint (n : Nat) : List UInt8 :=
  if n < 0x80 then [n.toUInt8]
  else if n < 0x800 then [(0xC0 + n / 0x40).toUInt8, (0x80 + n % 0x40).toUInt8]
  else if n < 0x10000 then
    [(0xE0 + n / 0x1000).toUInt8, (0x80 + n / 0x40 % 0x40).toUInt8, (0x80 + n % 0x40).toUInt8]
  else
    [(0xF0 + n / 0x40000).toUInt8, (0x80 + n / 0x1000 % 0x40).toUInt8,
      (0x80 + n / 0x40 % 0x40).toUInt8, (0x80 + n % 0x40).toUInt8]

/-- The bytes of a character. -/
def encodeChar (c : Char) : List UInt8 := encodeCodePoint c.toNat

/-- The bytes of a text. -/
def encode (cs : List Char) : List UInt8 := cs.flatMap encodeChar

/-- What a lead byte asks for: the number of bytes to follow, the bounds of the first of them,
and the bits the lead byte itself contributes. -/
structure Lead where
  follow : Nat
  low : UInt8
  high : UInt8
  bits : Nat

/-- The lead bytes of characters above `7F`; no other byte from `80` on can open a character. -/
def lead? (b : UInt8) : Option Lead :=
  if 0xC2 ≤ b ∧ b ≤ 0xDF then some ⟨1, 0x80, 0xBF, b.toNat - 0xC0⟩
  else if b = 0xE0 then some ⟨2, 0xA0, 0xBF, 0⟩
  else if b = 0xED then some ⟨2, 0x80, 0x9F, 0xD⟩
  else if 0xE1 ≤ b ∧ b ≤ 0xEF then some ⟨2, 0x80, 0xBF, b.toNat - 0xE0⟩
  else if b = 0xF0 then some ⟨3, 0x90, 0xBF, 0⟩
  else if 0xF1 ≤ b ∧ b ≤ 0xF3 then some ⟨3, 0x80, 0xBF, b.toNat - 0xF0⟩
  else if b = 0xF4 then some ⟨3, 0x80, 0x8F, 4⟩
  else none

/-- The longest run of acceptable further bytes, at most `n` of them. -/
def tails : (n : Nat) → (low high : UInt8) → List UInt8 → List UInt8
  | 0, _, _, _ => []
  | _, _, _, [] => []
  | n + 1, low, high, b :: bs =>
    if low ≤ b ∧ b ≤ high then b :: tails n 0x80 0xBF bs else []

/-- Why a byte sequence is no UTF-8. -/
inductive FlawSort
  | invalidStart
  | invalidContinuation
  | unexpectedEnd
  deriving DecidableEq, Repr

/-- What the first character of a non-empty byte sequence turns out to be. -/
inductive Reading
  | char (c : Char) (rest : List UInt8)
  | flaw (sort : FlawSort) (length : Nat)

/-- Reads the character that starts with byte `b`. A flaw covers the bytes up to the first one
that does not fit. -/
def readChar (b : UInt8) (bs : List UInt8) : Reading :=
  if b < 0x80 then .char (Char.ofNat b.toNat) bs
  else
    match lead? b with
    | none => .flaw .invalidStart 1
    | some lead =>
      let ts := tails lead.follow lead.low lead.high bs
      if ts.length = lead.follow then
        .char (Char.ofNat (ts.foldl (fun n t => n * 0x40 + t.toNat % 0x40) lead.bits))
          (bs.drop lead.follow)
      else if ts.length = bs.length then .flaw .unexpectedEnd (1 + ts.length)
      else .flaw .invalidContinuation (1 + ts.length)

/-- Reading a character leaves no more bytes than stood behind its lead byte. -/
theorem length_le_of_readChar {b : UInt8} {bs rest : List UInt8} {c : Char}
    (h : readChar b bs = .char c rest) : rest.length ≤ bs.length := by
  unfold readChar at h
  split at h
  · cases h
    exact Nat.le_refl _
  · split at h
    · cases h
    · simp only at h
      split at h
      · cases h
        simp
      · split at h <;> cases h

/-- The place and sort of the first flaw: `length` bytes from byte `start` on. -/
structure Flaw where
  sort : FlawSort
  start : Nat
  length : Nat
  byte : UInt8
  deriving DecidableEq, Repr

/-- Reads bytes that start at offset `start` of a file. -/
def decodeFrom (start : Nat) : List UInt8 → Except Flaw (List Char)
  | [] => .ok []
  | b :: bs =>
    match h : readChar b bs with
    | .char c rest =>
      have := length_le_of_readChar h
      (decodeFrom (start + 1 + (bs.length - rest.length)) rest).map (c :: ·)
    | .flaw sort length => .error ⟨sort, start, length, b⟩
  termination_by bs => bs.length
  decreasing_by simp only [List.length_cons]; omega

/-- The characters of a byte sequence, or its first flaw. -/
def decode (bytes : List UInt8) : Except Flaw (List Char) := decodeFrom 0 bytes

/-- The phrase for a sort of flaw. -/
def FlawSort.phrase : FlawSort → String
  | .invalidStart => "invalid start byte"
  | .invalidContinuation => "invalid continuation byte"
  | .unexpectedEnd => "unexpected end of data"

end ProtoSchema.Utf8
