import Mathlib.Data.List.Chain
import ProtoSchema.Literal.Escape
import ProtoSchema.Proofs.Literal.Digits

/-!
# String literals piece by piece

The body of a string literal is a sequence of pieces: characters and escapes, each with bytes of its
own. Where a piece has room for a further digit, the next piece must not open with one; then the
bytes of the body are those of its pieces, one after the other (`unescapeBody_spelling`).

Every body is such a sequence, or such a sequence in front of a backslash that opens no escape
(`exists_pieces`), and of one sequence only (`pieces_unique`). The scan follows this division, so
that a literal has bytes just if its body is a sequence of pieces, and its error tells what stands
behind the backslash (`unescape_pieces`).
-/

namespace ProtoSchema.Escape

/-! ## Pieces -/

/-- The escapes of one letter, each with the character that it stands for. -/
def letters : List (Char × Char) :=
  [('a', '\x07'), ('b', '\x08'), ('f', '\x0c'), ('n', '\n'), ('r', '\r'), ('t', '\t'),
    ('v', '\x0b'), ('\\', '\\'), ('\'', '\''), ('"', '"'), ('?', '?')]

/-- From `least` to `most` digits of a base. -/
structure Digits (base least most : Nat) where
  text : List Char
  all : text.all (Numeral.isDigit base) = true
  least_le : least ≤ text.length
  le_most : text.length ≤ most

namespace Digits

variable {base least most : Nat}

theorem isDigit (ds : Digits base least most) : ∀ c ∈ ds.text, Numeral.isDigit base c = true :=
  List.all_eq_true.mp ds.all

/-- The number that the digits denote. -/
def value (ds : Digits base least most) : Nat := Numeral.value base ds.text

/-- There is room for a further digit, and the character is one. -/
def Absorbs (ds : Digits base least most) (c : Char) : Prop :=
  ds.text.length < most ∧ Numeral.isDigit base c = true

end Digits

/-- A piece of the body of a string literal. -/
inductive Piece
  /-- A character that stands for itself. -/
  | plain (c : Char) (h : c ≠ '\\')
  /-- An escape of one letter. -/
  | letter (letter meaning : Char) (h : (letter, meaning) ∈ letters)
  /-- A byte in hexadecimal digits. -/
  | hex (mark : Char) (h : mark = 'x' ∨ mark = 'X') (digits : Digits 16 1 2)
  /-- A byte in octal digits. -/
  | octal (digits : Digits 8 1 3)
  /-- A code point in hexadecimal digits. -/
  | codePoint (mark : Char) (width : Nat) (h : mark = 'u' ∧ width = 4 ∨ mark = 'U' ∧ width = 8)
    (digits : Digits 16 width width) (hvalue : digits.value ≤ 0x10FFFF)

namespace Piece

/-- The characters of a piece. -/
def text : Piece → List Char
  | plain c _ => [c]
  | letter l _ _ => ['\\', l]
  | hex mark _ ds => '\\' :: mark :: ds.text
  | octal ds => '\\' :: ds.text
  | codePoint mark _ _ ds _ => '\\' :: mark :: ds.text

/-- The bytes of a piece; of an octal value the low eight bits. -/
def bytes : Piece → List UInt8
  | plain c _ => Utf8.encodeChar c
  | letter _ meaning _ => Utf8.encodeChar meaning
  | hex _ _ ds => [ds.value.toUInt8]
  | octal ds => [(ds.value % 256).toUInt8]
  | codePoint _ _ _ ds _ => Utf8.encodeCodePoint ds.value

/-- The character would be read as a further digit of the piece. -/
def Absorbs (p : Piece) (c : Char) : Prop :=
  match p with
  | plain .. => False
  | letter .. => False
  | hex _ _ ds => ds.Absorbs c
  | octal ds => ds.Absorbs c
  | codePoint _ _ _ ds _ => ds.Absorbs c

/-- A text goes on behind a piece without adding to it. -/
def EndsAt (p : Piece) (rest : List Char) : Prop := ∀ c ∈ rest.head?, ¬ p.Absorbs c

end Piece

/-- No piece opens with a digit that the piece in front of it would take. -/
def Delimited (pieces : List Piece) : Prop := pieces.IsChain fun p q => p.EndsAt q.text

instance {base least most : Nat} (ds : Digits base least most) (c : Char) :
    Decidable (ds.Absorbs c) :=
  inferInstanceAs (Decidable (_ ∧ _))

instance (p : Piece) : DecidablePred p.Absorbs := fun c =>
  match p with
  | .plain .. => inferInstanceAs (Decidable False)
  | .letter .. => inferInstanceAs (Decidable False)
  | .hex _ _ ds => inferInstanceAs (Decidable (ds.Absorbs c))
  | .octal ds => inferInstanceAs (Decidable (ds.Absorbs c))
  | .codePoint _ _ _ ds _ => inferInstanceAs (Decidable (ds.Absorbs c))

instance (p : Piece) (rest : List Char) : Decidable (p.EndsAt rest) :=
  match rest with
  | [] => .isTrue fun _ h => nomatch h
  | c :: _ => decidable_of_iff (¬ p.Absorbs c) (by simp [Piece.EndsAt])

instance : DecidablePred Delimited := fun pieces =>
  inferInstanceAs (Decidable (pieces.IsChain fun p q => p.EndsAt q.text))

/-- The characters of some pieces. -/
def spelling (pieces : List Piece) : List Char := pieces.flatMap Piece.text

/-- The bytes of some pieces. -/
def meaning (pieces : List Piece) : List UInt8 := pieces.flatMap Piece.bytes

/-- What may stand behind a backslash that opens no escape, and the error for it. -/
inductive Malformed : List Char → EscapeError → Prop
  | unfinished : Malformed [] .unfinished
  | unknown {letter : Char} (rest : List Char) (hletter : ∀ c, (letter, c) ∉ letters)
    (hoctal : Numeral.isDigit 8 letter = false) (hmark : letter ∉ ['x', 'X', 'u', 'U']) :
    Malformed (letter :: rest) (.unknown letter)
  | missingHex {mark : Char} {rest : List Char} (hmark : mark = 'x' ∨ mark = 'X')
    (hrest : ∀ c ∈ rest.head?, Numeral.isDigit 16 c = false) : Malformed (mark :: rest) .missingHex
  | short {mark : Char} {width : Nat} {rest : List Char}
    (hmark : mark = 'u' ∧ width = 4 ∨ mark = 'U' ∧ width = 8) (ds : Digits 16 0 (width - 1))
    (hrest : ∀ c ∈ rest.head?, Numeral.isDigit 16 c = false) :
    Malformed (mark :: (ds.text ++ rest)) (.shortCodePoint mark width)
  | beyond (ds : Digits 16 8 8) (rest : List Char) (hvalue : 0x10FFFF < ds.value) :
    Malformed ('U' :: (ds.text ++ rest)) (.beyondCodePoints 'U' ds.text)

/-! ## Runs of digits -/

section Digits

variable {base limit : Nat} {ds rest : List Char}

/-- A run of digits is read as a whole where no digit follows that there is room for. -/
theorem leadingDigits_append (hall : ∀ c ∈ ds, Numeral.isDigit base c = true)
    (hlimit : ds.length ≤ limit)
    (hrest : ds.length < limit → ∀ c ∈ rest.head?, Numeral.isDigit base c = false) :
    leadingDigits base limit (ds ++ rest) = ds := by
  have hstop : (rest.take (limit - ds.length)).takeWhile (Numeral.isDigit base) = [] := by
    by_cases hroom : ds.length < limit
    · cases rest with
      | nil => simp
      | cons c rest =>
        have hc := hrest hroom c rfl
        rw [show limit - ds.length = limit - ds.length - 1 + 1 by omega, List.take_succ_cons,
          List.takeWhile_cons_of_neg (by simp [hc])]
    · rw [show limit - ds.length = 0 by omega, List.take_zero, List.takeWhile_nil]
  rw [leadingDigits, List.take_append, List.take_of_length_le hlimit,
    List.takeWhile_append_of_pos hall, hstop, List.append_nil]

/-- Every text opens with a longest run of digits, up to a limit. -/
theorem exists_leadingDigits (base limit : Nat) (text : List Char) :
    ∃ ds rest, text = ds ++ rest ∧ (∀ c ∈ ds, Numeral.isDigit base c = true) ∧
      ds.length ≤ limit ∧
      (ds.length < limit → ∀ c ∈ rest.head?, Numeral.isDigit base c = false) := by
  induction limit generalizing text with
  | zero => exact ⟨[], text, rfl, by simp, by simp, by simp⟩
  | succ limit ih =>
    cases text with
    | nil => exact ⟨[], [], rfl, by simp, by simp, by simp⟩
    | cons c text =>
      by_cases hc : Numeral.isDigit base c = true
      · obtain ⟨ds, rest, rfl, hall, hlimit, hrest⟩ := ih text
        refine ⟨c :: ds, rest, rfl, List.forall_mem_cons.mpr ⟨hc, hall⟩, ?_, ?_⟩
        · exact Nat.succ_le_succ hlimit
        · exact fun hroom => hrest (Nat.lt_of_succ_lt_succ hroom)
      · refine ⟨[], c :: text, rfl, by simp, by simp, fun _ d hd => ?_⟩
        obtain rfl := Option.some.inj hd
        exact Bool.eq_false_iff.mpr hc

end Digits

theorem isDigit_backslash (base : Nat) : Numeral.isDigit base '\\' = false := by
  rw [Bool.eq_false_iff]
  intro h
  exact absurd (Numeral.range_of_isDigit h) (by decide)

/-! ## Reading one escape -/

/-- The escapes of one letter are those of the table. -/
theorem simple?_of_mem {l c : Char} (h : (l, c) ∈ letters) :
    ∃ b, simple? l = some b ∧ Utf8.encodeChar c = [b] := by
  have hall : ∀ e ∈ letters, ∃ b, simple? e.1 = some b ∧ Utf8.encodeChar e.2 = [b] := by
    simp only [letters, List.forall_mem_cons]
    refine ⟨?_, ?_, ?_, ?_, ?_, ?_, ?_, ?_, ?_, ?_, ?_, by simp⟩ <;> exact ⟨_, rfl, rfl⟩
  exact hall (l, c) h

theorem mem_of_simple? {l : Char} {b : UInt8} (h : simple? l = some b) :
    ∃ c, (l, c) ∈ letters := by
  have hl : l ∈ letters.map Prod.fst := by
    unfold simple? at h
    split at h
    case h_12 => cases h
    all_goals decide
  obtain ⟨⟨_, c⟩, hc, rfl⟩ := List.mem_map.mp hl
  exact ⟨c, hc⟩

theorem simple?_of_notMem {l : Char} (h : ∀ c, (l, c) ∉ letters) : simple? l = none := by
  by_contra hne
  obtain ⟨b, hb⟩ := Option.ne_none_iff_exists'.mp hne
  obtain ⟨c, hc⟩ := mem_of_simple? hb
  exact h c hc

theorem simple?_of_hexMark {mark : Char} (h : mark = 'x' ∨ mark = 'X') : simple? mark = none := by
  rcases h with rfl | rfl <;> rfl

/-- An octal digit is the letter of no other escape. -/
theorem simple?_of_isDigit {c : Char} (h : Numeral.isDigit 8 c = true) :
    simple? c = none ∧ ¬ (c = 'x' ∨ c = 'X') := by
  constructor
  · have hall : ∀ e ∈ letters, Numeral.isDigit 8 e.1 = false := by decide
    exact simple?_of_notMem fun meaning hmem => absurd h (by simp [hall _ hmem])
  · rintro (rfl | rfl) <;> exact absurd (Numeral.range_of_isDigit h) (by decide)

theorem Digits.leadingDigits {base least most : Nat} (ds : Digits base least most)
    {rest : List Char} (hend : ∀ c ∈ rest.head?, ¬ ds.Absorbs c) :
    leadingDigits base most (ds.text ++ rest) = ds.text := by
  apply leadingDigits_append ds.isDigit ds.le_most
  intro hroom c hc
  exact Bool.eq_false_iff.mpr fun hdigit => hend c hc ⟨hroom, hdigit⟩

theorem read_hex {mark : Char} (hmark : mark = 'x' ∨ mark = 'X') (ds : Digits 16 1 2)
    {rest : List Char} (hend : ∀ c ∈ rest.head?, ¬ ds.Absorbs c) :
    read mark (ds.text ++ rest) = .ok ([ds.value.toUInt8], ds.text.length) := by
  have hne : ds.text.isEmpty = false := by
    rw [List.isEmpty_eq_false_iff_exists_mem]
    exact List.exists_mem_of_length_pos ds.least_le
  rw [read, simple?_of_hexMark hmark]
  simp only [if_pos hmark, ds.leadingDigits hend, hne, Bool.false_eq_true, if_false]
  rfl

theorem read_octal {d : Char} {ds rest : List Char}
    (hall : ∀ c ∈ d :: ds, Numeral.isDigit 8 c = true) (hlength : ds.length ≤ 2)
    (hrest : ds.length < 2 → ∀ c ∈ rest.head?, Numeral.isDigit 8 c = false) :
    read d (ds ++ rest) = .ok ([(Numeral.value 8 (d :: ds) % 256).toUInt8], ds.length) := by
  rw [List.forall_mem_cons] at hall
  obtain ⟨hsimple, hhex⟩ := simple?_of_isDigit hall.1
  rw [read, hsimple]
  simp only [if_neg hhex, hall.1, if_true, leadingDigits_append hall.2 hlength hrest,
    List.length_cons, Nat.add_sub_cancel]
  rw [show 256 = 2 ^ 8 from rfl]
  exact congrArg (fun b => Except.ok ([b], ds.length)) UInt8.ofNat_mod_size.symm

/-- The two marks of code points differ in the number of digits only. -/
theorem read_mark {mark : Char} {width : Nat}
    (hmark : mark = 'u' ∧ width = 4 ∨ mark = 'U' ∧ width = 8) (rest : List Char) :
    read mark rest =
      if (leadingDigits 16 width rest).length ≠ width then .error (.shortCodePoint mark width)
      else if 0x10FFFF < Numeral.value 16 (leadingDigits 16 width rest) then
        .error (.beyondCodePoints mark (leadingDigits 16 width rest))
      else
        .ok (Utf8.encodeCodePoint (Numeral.value 16 (leadingDigits 16 width rest)), width) := by
  rcases hmark with ⟨rfl, rfl⟩ | ⟨rfl, rfl⟩ <;> rfl

theorem Digits.length {base width : Nat} (ds : Digits base width width) : ds.text.length = width :=
  Nat.le_antisymm ds.le_most ds.least_le

theorem leadingDigits_full {width : Nat} (ds : Digits 16 width width) (rest : List Char) :
    leadingDigits 16 width (ds.text ++ rest) = ds.text := by
  apply ds.leadingDigits
  intro c _ habsorbs
  exact absurd habsorbs.1 (by rw [ds.length]; exact Nat.lt_irrefl width)

theorem read_codePoint {mark : Char} {width : Nat}
    (hmark : mark = 'u' ∧ width = 4 ∨ mark = 'U' ∧ width = 8) (ds : Digits 16 width width)
    (hvalue : ds.value ≤ 0x10FFFF) (rest : List Char) :
    read mark (ds.text ++ rest) = .ok (Utf8.encodeCodePoint ds.value, ds.text.length) := by
  rw [read_mark hmark, leadingDigits_full, if_neg (not_not_intro ds.length), ds.length]
  exact if_neg (Nat.not_lt.mpr hvalue)

/-! ## One piece -/

/-- A piece is a character that stands for itself, or an escape that is read in one go. -/
theorem Piece.read_text (p : Piece) :
    (∃ c, c ≠ '\\' ∧ p.text = [c] ∧ p.bytes = Utf8.encodeChar c) ∨
      ∃ letter ds, p.text = '\\' :: letter :: ds ∧
        ∀ rest, p.EndsAt rest → read letter (ds ++ rest) = .ok (p.bytes, ds.length) := by
  cases p with
  | plain c hc => exact .inl ⟨c, hc, rfl, rfl⟩
  | letter l c hmem =>
    obtain ⟨b, hb, hbytes⟩ := simple?_of_mem hmem
    refine .inr ⟨l, [], rfl, fun rest _ => ?_⟩
    rw [read, hb, Piece.bytes, hbytes, List.length_nil]
  | hex mark hmark ds => exact .inr ⟨mark, ds.text, rfl, fun rest hend => read_hex hmark ds hend⟩
  | octal ds =>
    obtain ⟨text, hall, hleast, hmost⟩ := ds
    cases text with
    | nil => exact absurd hleast (by simp)
    | cons d others =>
      refine .inr ⟨d, others, rfl, fun rest hend => ?_⟩
      apply read_octal (List.all_eq_true.mp hall) (Nat.le_of_succ_le_succ hmost)
      intro hroom c hc
      rw [Bool.eq_false_iff]
      exact fun hdigit => hend c hc ⟨Nat.succ_lt_succ hroom, hdigit⟩
  | codePoint mark width hmark ds hvalue =>
    exact .inr ⟨mark, ds.text, rfl, fun rest _ => read_codePoint hmark ds hvalue rest⟩

/-- A piece in front of a text that does not add to it. -/
theorem unescapeBody_piece (p : Piece) {rest : List Char} (hend : p.EndsAt rest) :
    unescapeBody (p.text ++ rest) = (unescapeBody rest).map (p.bytes ++ ·) := by
  rcases p.read_text with ⟨c, hc, htext, hbytes⟩ | ⟨letter, ds, htext, hread⟩
  · rw [htext, hbytes, List.singleton_append, unescapeBody]
    · exact fun h _ => hc h
    · exact fun _ _ h _ => hc h
  · rw [htext, List.cons_append, List.cons_append, unescapeBody, hread rest hend]
    simp only [List.drop_left]

/-- A backslash that opens no escape. -/
theorem unescapeBody_malformed {rest : List Char} {e : EscapeError} (h : Malformed rest e) :
    unescapeBody ('\\' :: rest) = .error e := by
  have hread {letter : Char} {rest : List Char} {e : EscapeError} (h : read letter rest = .error e) :
      unescapeBody ('\\' :: letter :: rest) = .error e := by
    rw [unescapeBody, h]
  cases h with
  | unfinished => rw [unescapeBody]
  | @unknown letter rest hletter hoctal hmark =>
    simp only [List.mem_cons, List.not_mem_nil, or_false, not_or] at hmark
    apply hread
    simp [read, simple?_of_notMem hletter, hoctal, hmark]
  | @missingHex mark rest hmark hrest =>
    have hdigits : leadingDigits 16 2 ([] ++ rest) = [] :=
      leadingDigits_append (by simp) (by simp) fun _ => hrest
    rw [List.nil_append] at hdigits
    apply hread
    rw [read, simple?_of_hexMark hmark]
    simp only [if_pos hmark, hdigits, List.isEmpty_nil, if_true]
  | @short mark width rest hmark ds hrest =>
    have hwidth : ds.text.length < width := by
      have hmost := ds.le_most
      omega
    have hdigits : leadingDigits 16 width (ds.text ++ rest) = ds.text :=
      leadingDigits_append ds.isDigit hwidth.le fun _ => hrest
    apply hread
    rw [read_mark hmark, hdigits, if_pos hwidth.ne]
  | beyond ds rest hvalue =>
    apply hread
    rw [read_mark (.inr ⟨rfl, rfl⟩), leadingDigits_full, if_neg (not_not_intro ds.length)]
    exact if_pos hvalue

/-! ## Whole bodies -/

theorem Piece.text_ne_nil (p : Piece) : p.text ≠ [] := by
  cases p <;> exact List.cons_ne_nil _ _

theorem spelling_cons (p : Piece) (pieces : List Piece) (rest : List Char) :
    spelling (p :: pieces) ++ rest = p.text ++ (spelling pieces ++ rest) := by
  rw [spelling, List.flatMap_cons, ← spelling, List.append_assoc]

namespace Piece

theorem endsAt_nil (p : Piece) : p.EndsAt [] := fun c hc => by cases hc

/-- A backslash is no digit. -/
theorem endsAt_backslash (p : Piece) (rest : List Char) : p.EndsAt ('\\' :: rest) := by
  intro c hc
  obtain rfl := Option.some.inj hc
  have hnone {base least most : Nat} (ds : Digits base least most) : ¬ ds.Absorbs '\\' :=
    fun habsorbs => absurd habsorbs.2 (by simp [isDigit_backslash])
  cases p with
  | plain => exact id
  | letter => exact id
  | hex => exact hnone _
  | octal => exact hnone _
  | codePoint => exact hnone _

/-- Only the first character behind a piece matters to it. -/
theorem endsAt_spelling_iff (p q : Piece) (pieces : List Piece) (rest : List Char) :
    p.EndsAt (spelling (q :: pieces) ++ rest) ↔ p.EndsAt q.text := by
  obtain ⟨c, others, htext⟩ := List.exists_cons_of_ne_nil q.text_ne_nil
  rw [EndsAt, EndsAt, spelling_cons, htext, List.cons_append, List.head?_cons, List.head?_cons]

end Piece

/-- Delimited pieces do not add to each other, nor does what stands behind the last of them. -/
theorem delimited_cons_iff {p : Piece} {pieces : List Piece} {rest : List Char}
    (hrest : p.EndsAt rest) :
    Delimited (p :: pieces) ↔ p.EndsAt (spelling pieces ++ rest) ∧ Delimited pieces := by
  rw [Delimited, List.isChain_cons, ← Delimited]
  refine and_congr_left fun _ => ?_
  cases pieces with
  | nil => simpa [spelling] using hrest
  | cons q pieces =>
    rw [p.endsAt_spelling_iff q pieces rest]
    simp

/-- The text behind pieces that are followed by nothing or by a backslash. -/
theorem unescapeBody_spelling {pieces : List Piece} (h : Delimited pieces) {rest : List Char}
    (hrest : ∀ p : Piece, p.EndsAt rest) :
    unescapeBody (spelling pieces ++ rest) = (unescapeBody rest).map (meaning pieces ++ ·) := by
  induction pieces with
  | nil => cases hbytes : unescapeBody rest <;> simp [spelling, meaning, hbytes, Except.map]
  | cons p pieces ih =>
    obtain ⟨hend, hpieces⟩ := (delimited_cons_iff (hrest p)).mp h
    rw [spelling_cons, unescapeBody_piece p hend, ih hpieces]
    cases unescapeBody rest with
    | error e => rfl
    | ok bytes => simp [Except.map, meaning]

/-- A text opens with one piece at most. -/
theorem Piece.text_unique {p q : Piece} {rest tail : List Char} (hp : p.EndsAt rest)
    (hq : q.EndsAt tail) (h : p.text ++ rest = q.text ++ tail) :
    p.text = q.text ∧ rest = tail := by
  have hlength : p.text.length = q.text.length := by
    rcases p.read_text with ⟨c, hc, hptext, -⟩ | ⟨l, ds, hptext, hpread⟩ <;>
      rcases q.read_text with ⟨d, hd, hqtext, -⟩ | ⟨m, es, hqtext, hqread⟩ <;>
      rw [hptext, hqtext] at h ⊢
    · rfl
    · exact absurd (List.cons.inj h).1 hc
    · exact absurd (List.cons.inj h).1.symm hd
    · -- both are read from the same place
      obtain ⟨rfl, hbehind⟩ := List.cons.inj (List.cons.inj h).2
      have hbehind : ds ++ rest = es ++ tail := hbehind
      have hread := hpread rest hp
      rw [hbehind, hqread tail hq] at hread
      simp [(Prod.mk.inj (Except.ok.inj hread)).2]
  exact List.append_inj h hlength

/-- The division of a body into pieces is unique. -/
theorem pieces_unique {ps qs : List Piece} (hps : Delimited ps) (hqs : Delimited qs)
    (h : spelling ps = spelling qs) : ps.map Piece.text = qs.map Piece.text := by
  induction ps generalizing qs with
  | nil =>
    cases qs with
    | nil => rfl
    | cons q qs => exact absurd h (by simp [spelling, q.text_ne_nil])
  | cons p ps ih =>
    cases qs with
    | nil => exact absurd h (by simp [spelling, p.text_ne_nil])
    | cons q qs =>
      obtain ⟨hp, hps⟩ := (delimited_cons_iff p.endsAt_nil).mp hps
      obtain ⟨hq, hqs⟩ := (delimited_cons_iff q.endsAt_nil).mp hqs
      rw [List.append_nil] at hp hq
      obtain ⟨htext, hrest⟩ := Piece.text_unique hp hq h
      rw [List.map_cons, List.map_cons, htext, ih hps hqs hrest]

/-- What stands behind a backslash is the rest of an escape, or it opens none. -/
def Opens (rest : List Char) : Prop :=
  (∃ p tail, '\\' :: rest = Piece.text p ++ tail ∧ p.EndsAt tail) ∨ ∃ e, Malformed rest e

theorem opens_hex {mark : Char} (hmark : mark = 'x' ∨ mark = 'X') (rest : List Char) :
    Opens (mark :: rest) := by
  obtain ⟨ds, tail, rfl, hall, hmost, htail⟩ := exists_leadingDigits 16 2 rest
  by_cases hne : ds = []
  · subst hne
    exact .inr ⟨_, .missingHex hmark (htail (by simp))⟩
  · refine .inl ⟨.hex mark hmark ⟨ds, List.all_eq_true.mpr hall, List.length_pos_of_ne_nil hne,
      hmost⟩, tail, rfl, ?_⟩
    exact fun c hc habsorbs => absurd habsorbs.2 (by simp [htail habsorbs.1 c hc])

theorem opens_octal {d : Char} (hd : Numeral.isDigit 8 d = true) (rest : List Char) :
    Opens (d :: rest) := by
  obtain ⟨ds, tail, rfl, hall, hmost, htail⟩ := exists_leadingDigits 8 2 rest
  refine .inl ⟨.octal ⟨d :: ds, by simpa [hd] using hall, Nat.succ_pos _,
    Nat.succ_le_succ hmost⟩, tail, rfl, ?_⟩
  intro c hc habsorbs
  exact absurd habsorbs.2 (by simp [htail (Nat.lt_of_succ_lt_succ habsorbs.1) c hc])

theorem opens_codePoint {mark : Char} {width : Nat}
    (hmark : mark = 'u' ∧ width = 4 ∨ mark = 'U' ∧ width = 8) (rest : List Char) :
    Opens (mark :: rest) := by
  obtain ⟨ds, tail, rfl, hall, hmost, htail⟩ := exists_leadingDigits 16 width rest
  by_cases hfull : ds.length = width
  · by_cases hvalue : Numeral.value 16 ds ≤ 0x10FFFF
    · refine .inl ⟨.codePoint mark width hmark ⟨ds, List.all_eq_true.mpr hall, hfull.ge, hmost⟩
        hvalue, tail, rfl, ?_⟩
      exact fun c hc habsorbs => absurd habsorbs.1 (by simp [hfull])
    · rcases hmark with ⟨rfl, rfl⟩ | ⟨rfl, rfl⟩
      · -- four digits do not reach beyond the last code point
        have hlt := Numeral.value_lt hall
        rw [hfull] at hlt
        omega
      · exact .inr ⟨_, .beyond ⟨ds, List.all_eq_true.mpr hall, hfull.ge, hmost⟩ tail
          (Nat.lt_of_not_le hvalue)⟩
  · have hroom : ds.length < width := by omega
    exact .inr ⟨_, .short hmark ⟨ds, List.all_eq_true.mpr hall, Nat.zero_le _, by omega⟩
      (htail hroom)⟩

theorem opens (rest : List Char) : Opens rest := by
  cases rest with
  | nil => exact .inr ⟨_, .unfinished⟩
  | cons l rest =>
    by_cases hletter : ∃ c, (l, c) ∈ letters
    · obtain ⟨c, hc⟩ := hletter
      exact .inl ⟨.letter l c hc, rest, rfl, fun _ _ => id⟩
    · by_cases hoctal : Numeral.isDigit 8 l = true
      · exact opens_octal hoctal rest
      · by_cases hmark : l ∈ ['x', 'X', 'u', 'U']
        · simp only [List.mem_cons, List.not_mem_nil, or_false] at hmark
          rcases hmark with rfl | rfl | rfl | rfl
          · exact opens_hex (.inl rfl) rest
          · exact opens_hex (.inr rfl) rest
          · exact opens_codePoint (.inl ⟨rfl, rfl⟩) rest
          · exact opens_codePoint (.inr ⟨rfl, rfl⟩) rest
        · exact .inr ⟨_, .unknown rest (not_exists.mp hletter) (Bool.eq_false_iff.mpr hoctal) hmark⟩

/-- Every body is a sequence of pieces, possibly in front of a backslash that opens no escape. -/
theorem exists_pieces (body : List Char) :
    ∃ pieces, Delimited pieces ∧ (body = spelling pieces ∨
      ∃ rest e, body = spelling pieces ++ '\\' :: rest ∧ Malformed rest e) := by
  have hstep {p : Piece} {tail : List Char} (hend : p.EndsAt tail)
      (ih : ∃ pieces, Delimited pieces ∧ (tail = spelling pieces ∨
        ∃ rest e, tail = spelling pieces ++ '\\' :: rest ∧ Malformed rest e)) :
      ∃ pieces, Delimited pieces ∧ (p.text ++ tail = spelling pieces ∨
        ∃ rest e, p.text ++ tail = spelling pieces ++ '\\' :: rest ∧ Malformed rest e) := by
    obtain ⟨pieces, hpieces, rfl | ⟨rest, e, rfl, hmalformed⟩⟩ := ih
    · have hchain := (delimited_cons_iff p.endsAt_nil).mpr
        ⟨by rwa [List.append_nil], hpieces⟩
      exact ⟨p :: pieces, hchain, .inl rfl⟩
    · have hchain := (delimited_cons_iff (p.endsAt_backslash rest)).mpr ⟨hend, hpieces⟩
      exact ⟨p :: pieces, hchain, .inr ⟨rest, e, (spelling_cons p pieces _).symm, hmalformed⟩⟩
  induction hlength : body.length using Nat.strongRecOn generalizing body with
  | ind n ih =>
    cases body with
    | nil => exact ⟨[], .nil, .inl rfl⟩
    | cons c rest =>
      by_cases hc : c = '\\'
      · subst hc
        rcases opens rest with ⟨p, tail, hbody, hend⟩ | ⟨e, hmalformed⟩
        · have hshort : tail.length < n := by
            have hsum := congrArg List.length hbody
            have hpos := List.length_pos_of_ne_nil p.text_ne_nil
            rw [List.length_append] at hsum
            omega
          rw [hbody]
          exact hstep hend (ih tail.length hshort tail rfl)
        · exact ⟨[], .nil, .inr ⟨rest, e, rfl, hmalformed⟩⟩
      · have hshort : rest.length < n := by simp [← hlength]
        exact hstep (p := .plain c hc) (fun _ _ => id) (ih rest.length hshort rest rfl)

/-! ## Literals -/

/-- A literal has bytes just if its body is a sequence of pieces, and then those of the pieces. -/
theorem unescapeBody_ok_iff {body : List Char} {bytes : List UInt8} :
    unescapeBody body = .ok bytes ↔
      ∃ pieces, Delimited pieces ∧ body = spelling pieces ∧ bytes = meaning pieces := by
  have hrun {pieces : List Piece} (h : Delimited pieces) :
      unescapeBody (spelling pieces) = .ok (meaning pieces) := by
    have hall := unescapeBody_spelling h Piece.endsAt_nil
    rw [List.append_nil, unescapeBody] at hall
    simpa [Except.map] using hall
  constructor
  · intro hbytes
    obtain ⟨pieces, hpieces, rfl | ⟨rest, e, rfl, hmalformed⟩⟩ := exists_pieces body
    · rw [hrun hpieces] at hbytes
      exact ⟨pieces, hpieces, rfl, (Except.ok.inj hbytes).symm⟩
    · rw [unescapeBody_spelling hpieces (·.endsAt_backslash rest),
        unescapeBody_malformed hmalformed] at hbytes
      cases hbytes
  · rintro ⟨pieces, hpieces, rfl, rfl⟩
    exact hrun hpieces

/-- The error tells what stands behind the first backslash that opens no escape. -/
theorem unescapeBody_error_iff {body : List Char} {e : EscapeError} :
    unescapeBody body = .error e ↔
      ∃ pieces rest, Delimited pieces ∧ body = spelling pieces ++ '\\' :: rest ∧
        Malformed rest e := by
  have hrun {pieces : List Piece} (h : Delimited pieces) {rest : List Char} {e : EscapeError}
      (hmalformed : Malformed rest e) :
      unescapeBody (spelling pieces ++ '\\' :: rest) = .error e := by
    rw [unescapeBody_spelling h (·.endsAt_backslash rest), unescapeBody_malformed hmalformed]
    rfl
  constructor
  · intro herror
    obtain ⟨pieces, hpieces, hbody | ⟨rest, e, rfl, hmalformed⟩⟩ := exists_pieces body
    · rw [unescapeBody_ok_iff.mpr ⟨pieces, hpieces, hbody, rfl⟩] at herror
      cases herror
    · rw [hrun hpieces hmalformed] at herror
      obtain rfl := Except.error.inj herror
      exact ⟨pieces, rest, hpieces, rfl, hmalformed⟩
  · rintro ⟨pieces, rest, hpieces, rfl, hmalformed⟩
    exact hrun hpieces hmalformed

theorem Malformed.eq_nil {rest : List Char} (h : Malformed rest .unfinished) : rest = [] := by
  cases h
  rfl

/-- Delimited pieces between two delimiters denote the bytes of the pieces. Any literal has bytes
just if its body is such a sequence; otherwise it has the error of the first backslash that opens no
escape, which says that the literal is unfinished just if nothing stands behind this backslash. -/
theorem unescape_pieces :
    (∀ (opening closing : Char) (pieces : List Piece), Delimited pieces →
      unescape (opening :: (spelling pieces ++ [closing])) = .ok (meaning pieces)) ∧
    ∀ (literal body : List Char), body = (literal.drop 1).dropLast →
      (∀ bytes, unescape literal = .ok bytes ↔
        ∃ pieces, Delimited pieces ∧ body = spelling pieces ∧ bytes = meaning pieces) ∧
      (∀ e, unescape literal = .error e ↔
        ∃ pieces rest, Delimited pieces ∧ body = spelling pieces ++ '\\' :: rest ∧
          Malformed rest e) ∧
      ((¬ ∃ pieces, Delimited pieces ∧ body = spelling pieces) →
        ∃ e, unescape literal = .error e ∧
          (e = .unfinished ↔ ∃ pieces, Delimited pieces ∧ body = spelling pieces ++ ['\\'])) := by
  constructor
  · intro opening closing pieces hpieces
    rw [unescape, List.drop_one, List.tail_cons, List.dropLast_concat]
    exact unescapeBody_ok_iff.mpr ⟨pieces, hpieces, rfl, rfl⟩
  · rintro literal _ rfl
    refine ⟨fun bytes => unescapeBody_ok_iff, fun e => unescapeBody_error_iff, fun hnone => ?_⟩
    cases hresult : unescape literal with
    | ok bytes =>
      obtain ⟨pieces, hpieces, hbody, -⟩ := unescapeBody_ok_iff.mp hresult
      exact absurd ⟨pieces, hpieces, hbody⟩ hnone
    | error e =>
      refine ⟨e, rfl, ?_, ?_⟩
      · rintro rfl
        obtain ⟨pieces, rest, hpieces, hbody, hmalformed⟩ := unescapeBody_error_iff.mp hresult
        exact ⟨pieces, hpieces, hmalformed.eq_nil ▸ hbody⟩
      · rintro ⟨pieces, hpieces, hbody⟩
        have hunfinished : unescape literal = .error .unfinished :=
          unescapeBody_error_iff.mpr ⟨pieces, [], hpieces, hbody, .unfinished⟩
        exact Except.error.inj (hresult.symm.trans hunfinished)

namespace Sample

/-- Digits that end before the next piece, and a code point that is no character. -/
def pieces : List Piece :=
  [.plain 'a' (by decide), .hex 'x' (.inl rfl) ⟨['4'], by decide, by decide, by decide⟩,
    .plain 'g' (by decide), .octal ⟨['5', '0', '1'], by decide, by decide, by decide⟩,
    .plain '1' (by decide), .letter 'n' '\n' (by decide),
    .codePoint 'u' 4 (.inl ⟨rfl, rfl⟩) ⟨['d', '8', '0', '0'], by decide, by decide, by decide⟩
      (by decide)]

end Sample

theorem unescape_pieces_sample :
    Delimited Sample.pieces ∧
      unescape ('"' :: (spelling Sample.pieces ++ ['"'])) =
        .ok [0x61, 0x04, 0x67, 0x41, 0x31, 0x0A, 0xED, 0xA0, 0x80] ∧
      spelling Sample.pieces = "a\\x4g\\5011\\n\\ud800".toList ∧
      unescape ['"', '\\', '"'] = .error .unfinished ∧
      ∃ e, unescape ['"', '\\', 'q', '"'] = .error e ∧ e ≠ .unfinished := by
  have hpieces : Delimited Sample.pieces := by decide
  refine ⟨hpieces, unescape_pieces.1 '"' '"' _ hpieces, by decide, ?_, ?_⟩
  · exact ((unescape_pieces.2 ['"', '\\', '"'] ['\\'] rfl).2.1 .unfinished).mpr
      ⟨[], [], .nil, rfl, .unfinished⟩
  · have hunknown : Malformed ['q'] (.unknown 'q') :=
      .unknown [] (by simp [letters]) rfl (by decide)
    have herror := ((unescape_pieces.2 ['"', '\\', 'q', '"'] ['\\', 'q'] rfl).2.1 _).mpr
      ⟨[], ['q'], .nil, rfl, hunknown⟩
    exact ⟨_, herror, nofun⟩

end ProtoSchema.Escape
