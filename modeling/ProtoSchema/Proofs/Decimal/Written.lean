import ProtoSchema.Decimal.Shortest
import ProtoSchema.Literal.Escape
import ProtoSchema.Proofs.Text.Utf8
import ProtoSchema.Proofs.Literal.Digits

/-!
# Written literals

A natural number and a byte string are written as lexemes (`Nat.toDigits_mem_integers`,
`Literal.quote_mem_strings`) that have them as values again (`parseInt_toDigits`, `unescape_quote`).
The text of a double is a lexeme again: a number with a point or exponent, or one of the words for
infinity and for what is no number, possibly behind a minus sign (`Decimal.floatText_cases`).
-/

namespace ProtoSchema

open scoped Computability

/-! ## Natural numbers -/

/-- A number other than zero is written without a leading zero. -/
theorem exists_toDigits {n : Nat} (h : n ≠ 0) :
    ∃ c ds, Nat.toDigits 10 n = c :: ds ∧ '1' ≤ c ∧ c ≤ '9' := by
  induction n using Nat.strongRecOn with
  | ind n ih =>
    rw [Nat.toDigits_eq_if (by decide)]
    split
    · next hn =>
      have hall : ∀ k : Fin 10, k.val ≠ 0 → '1' ≤ k.val.digitChar ∧ k.val.digitChar ≤ '9' := by
        decide
      exact ⟨_, [], rfl, hall ⟨n, hn⟩ h⟩
    · next hn =>
      obtain ⟨c, ds, hdigits, hc⟩ := ih (n / 10) (by omega) (by omega)
      exact ⟨c, ds ++ [(n % 10).digitChar], by rw [hdigits, List.cons_append], hc⟩

theorem isDigit_of_mem_toDigits {n : Nat} {c : Char} (h : c ∈ Nat.toDigits 10 n) :
    c.isDigit = true :=
  Nat.isDigit_of_mem_toDigits (by decide) (by decide) h

/-- A natural number is written as an integer lexeme. -/
theorem toDigits_mem_integers (n : Nat) : Nat.toDigits 10 n ∈ Lexeme.integers := by
  by_cases hn : n = 0
  · subst hn
    exact .inr (Lexeme.cons_mem_mul (Lexeme.mem_word_self _) (Language.nil_mem_kstar _))
  · obtain ⟨c, ds, hdigits, hc⟩ := exists_toDigits hn
    rw [hdigits]
    refine .inl (.inr (Lexeme.cons_mem_mul (Lexeme.mem_between hc) ?_))
    refine Lexeme.mem_kstar_of_forall fun d hd => Lexeme.mem_digits (@isDigit_of_mem_toDigits n d ?_)
    rw [hdigits]
    exact List.mem_cons_of_mem c hd

/-- The lexeme of a natural number has this number as its value. -/
theorem parseInt_toDigits (n : Nat) : parseInt (Nat.toDigits 10 n) = .ok (n : Int) := by
  by_cases hn : n = 0
  · subst hn
    decide
  · obtain ⟨c, ds, hdigits, hc⟩ := exists_toDigits hn
    have hall : ∀ d ∈ c :: ds, d.isDigit = true :=
      fun d hd => isDigit_of_mem_toDigits (hdigits ▸ hd)
    have hzero : c ≠ '0' := by
      rintro rfl
      exact absurd hc.1 (by decide)
    rw [hdigits, parseInt_of_digits hzero hall, ← hdigits,
      Numeral.value_toDigits (by decide) (by decide)]

/-! ## Byte strings -/

namespace Literal

open Lexeme

/-- The digits of a byte in base eight. -/
theorem octalDigits (b : UInt8) :
    Numeral.isDigit 8 (octalDigit (b.toNat / 64)) = true ∧
      Numeral.isDigit 8 (octalDigit (b.toNat / 8)) = true ∧
      Numeral.isDigit 8 (octalDigit b.toNat) = true ∧
      Numeral.value 8 [octalDigit (b.toNat / 64), octalDigit (b.toNat / 8), octalDigit b.toNat] =
        b.toNat := by
  have hall : ∀ n : Fin 256, Numeral.isDigit 8 (octalDigit (n / 64)) = true ∧
      Numeral.isDigit 8 (octalDigit (n / 8)) = true ∧ Numeral.isDigit 8 (octalDigit n) = true ∧
      Numeral.value 8 [octalDigit (n / 64), octalDigit (n / 8), octalDigit n] = n := by
    decide +kernel
  exact hall ⟨b.toNat, b.toNat_lt⟩

/-- An escape of octal digits is read back. -/
theorem read_octalDigits (b : UInt8) (rest : List Char) :
    Escape.read (octalDigit (b.toNat / 64))
      (octalDigit (b.toNat / 8) :: octalDigit b.toNat :: rest) = .ok ([b], 2) := by
  have hletter : ∀ k : Fin 8, Escape.simple? (octalDigit k) = none ∧
      ¬ (octalDigit k = 'x' ∨ octalDigit k = 'X') := by decide
  obtain ⟨hsimple, hhex⟩ := hletter ⟨b.toNat / 64, by have := b.toNat_lt; omega⟩
  obtain ⟨h1, h2, h3, hvalue⟩ := octalDigits b
  have hdigits : Escape.leadingDigits 8 2 (octalDigit (b.toNat / 8) :: octalDigit b.toNat :: rest) =
      [octalDigit (b.toNat / 8), octalDigit b.toNat] := by
    rw [Escape.leadingDigits, List.take_succ_cons, List.take_succ_cons, List.take_zero,
      List.takeWhile_cons_of_pos h2, List.takeWhile_cons_of_pos h3, List.takeWhile_nil]
  rw [Escape.read, hsimple]
  simp only [if_neg hhex, h1, if_true, hdigits, hvalue, Utf8.toUInt8_of_toNat (b := b) rfl]
  rfl

/-- A byte is read back from what it is written as. -/
theorem unescapeBody_quotedByte (b : UInt8) (rest : List Char) :
    unescapeBody (quotedByte b ++ rest) = (unescapeBody rest).map (b :: ·) := by
  have hlt := b.toNat_lt
  fun_cases quotedByte b with
  | case1 n c hc =>
    have hread : Escape.read c rest = .ok ([b], 0) := by
      have hsimple : ∀ n : Fin 256, (Char.ofNat n = '"' ∨ Char.ofNat n = '\\') →
          Escape.simple? (Char.ofNat n) = some n.val.toUInt8 := by decide +kernel
      rw [Escape.read, hsimple ⟨n, hlt⟩ hc, Utf8.toUInt8_of_toNat rfl]
    rw [List.cons_append, List.singleton_append, unescapeBody, hread]
    rfl
  | case2 n c hc hrange =>
    have hplain : c ≠ '\\' := fun h => hc (.inr h)
    rw [List.singleton_append, unescapeBody, Utf8.encodeChar_ofNat (by omega), Utf8.encodeCodePoint,
      if_pos (by omega), Utf8.toUInt8_of_toNat rfl]
    · rfl
    · exact fun h _ => hplain h
    · exact fun _ _ h _ => hplain h
  | case3 n c hc hrange =>
    rw [List.cons_append, List.cons_append, List.cons_append, List.singleton_append, unescapeBody,
      read_octalDigits]
    rfl

theorem unescapeBody_quoted (bytes : List UInt8) :
    unescapeBody (bytes.flatMap quotedByte) = .ok bytes := by
  induction bytes with
  | nil => rw [List.flatMap_nil, unescapeBody]
  | cons b bytes ih =>
    rw [List.flatMap_cons, unescapeBody_quotedByte, ih]
    rfl

/-- The literal for some bytes denotes them. -/
theorem unescape_quote (bytes : List UInt8) : unescape (quote bytes).toList = .ok bytes := by
  rw [quote, unescape, String.toList_ofList, List.drop_one, List.tail_cons, List.dropLast_concat,
    unescapeBody_quoted]

/-- A byte may be written in front of what stands between double quotes. -/
theorem quotedByte_append_mem (b : UInt8) {l : List Char}
    (hl : l ∈ (noneOf ['"', '\\', '\n'] + word ['\\'] * noneOf ['\n'])∗) :
    quotedByte b ++ l ∈ (noneOf ['"', '\\', '\n'] + word ['\\'] * noneOf ['\n'])∗ := by
  have hescaped {c : Char} {l : List Char} (hc : c ≠ '\n')
      (hl : l ∈ (noneOf ['"', '\\', '\n'] + word ['\\'] * noneOf ['\n'])∗) :
      '\\' :: c :: l ∈ (noneOf ['"', '\\', '\n'] + word ['\\'] * noneOf ['\n'])∗ :=
    append_mem_kstar (l := ['\\', c])
      (.inr (cons_mem_mul (mem_word_self _) (mem_noneOf (by simpa using hc)))) hl
  have hplain {c : Char} {l : List Char} (hc : c ∉ ['"', '\\', '\n'])
      (hl : l ∈ (noneOf ['"', '\\', '\n'] + word ['\\'] * noneOf ['\n'])∗) :
      c :: l ∈ (noneOf ['"', '\\', '\n'] + word ['\\'] * noneOf ['\n'])∗ :=
    append_mem_kstar (l := [c]) (.inl (mem_noneOf hc)) hl
  have hdigit {c : Char} (hc : Numeral.isDigit 8 c = true) : c ∉ ['"', '\\', '\n'] := by
    intro hmem
    have hrange := Numeral.range_of_isDigit hc
    simp only [List.mem_cons, List.not_mem_nil, or_false] at hmem
    rcases hmem with rfl | rfl | rfl <;> exact absurd hrange (by decide)
  have hlt := b.toNat_lt
  fun_cases quotedByte b with
  | case1 n c hc =>
    refine hescaped (fun hline => ?_) hl
    rw [hline] at hc
    exact absurd hc (by decide)
  | case2 n c hc hrange =>
    refine hplain ?_ hl
    have hline : c ≠ '\n' := by
      intro hline
      have hn : c.toNat = n := by
        rw [Char.toNat_ofNat, if_pos (.inl (by omega))]
      rw [hline] at hn
      exact absurd hrange.1 (hn ▸ by decide)
    rw [not_or] at hc
    simp [hc, hline]
  | case3 n c hc hrange =>
    obtain ⟨h1, h2, h3, -⟩ := octalDigits b
    refine hescaped ?_ (hplain (hdigit h2) (hplain (hdigit h3) hl))
    exact fun h => hdigit h1 (by rw [show octalDigit (n / 64) = '\n' from h]; decide)

/-- Bytes are written as a string lexeme. -/
theorem quote_mem_strings (bytes : List UInt8) : (quote bytes).toList ∈ strings := by
  rw [quote, String.toList_ofList]
  refine .inl (cons_mem_quoted (Language.append_mem_mul ?_ (mem_word_self _)))
  induction bytes with
  | nil => exact Language.nil_mem_kstar _
  | cons b bytes ih => exact quotedByte_append_mem b ih

end Literal

/-! ## Doubles -/

namespace Lexeme

/-- Digits with a point in front of the last of them. -/
theorem mem_floats_of_point {before behind : List Char} (hbefore : ∀ c ∈ before, c.isDigit = true)
    (hne : behind ≠ []) (hbehind : ∀ c ∈ behind, c.isDigit = true) :
    before ++ '.' :: behind ∈ floats := by
  have hnone : exponent? [] = none := rfl
  have htake : behind.takeWhile Char.isDigit = behind :=
    List.takeWhile_eq_self_iff.mpr hbehind
  refine @append_mem_floats before ('.' :: behind) _ hbefore ?_
  simp [fraction?, htake, hne, hnone]

/-- Digits, possibly with a point behind the first of them, and an exponent. -/
theorem mem_floats_of_exponent {c : Char} {behind e : List Char} (hc : c.isDigit = true)
    (hbehind : ∀ c ∈ behind, c.isDigit = true) (he : e ∈ exponents) :
    c :: ((if behind.isEmpty then [] else '.' :: behind) ++ e) ∈ floats := by
  have hfirst : [c] ∈ many digits :=
    mem_many_of_forall (List.cons_ne_nil c []) (by simpa using mem_digits hc)
  cases behind with
  | nil => exact .inr (Language.append_mem_mul hfirst he)
  | cons d ds =>
    have hdigits := mem_kstar_of_forall fun x hx => mem_digits (hbehind x hx)
    have hpoint : [c] ++ '.' :: d :: ds ∈ many digits * word ['.'] * digits∗ := by
      rw [mul_assoc]
      exact Language.append_mem_mul hfirst (cons_mem_mul (mem_word_self ['.']) hdigits)
    rw [List.isEmpty_cons, if_neg Bool.false_ne_true]
    exact .inl (Language.append_mem_mul (a := [c] ++ '.' :: d :: ds) (Or.inl hpoint)
      (mem_optional he))

end Lexeme

namespace Decimal

open Lexeme

/-! ## Layouts -/

/-- Zeros in front of a number or behind it are digits. -/
theorem isDigit_of_mem_replicate {n : Nat} {c : Char} (h : c ∈ List.replicate n '0') :
    c.isDigit = true := by
  obtain rfl := (List.mem_replicate.mp h).2
  rfl

theorem positional_mem_floats {ds : List Char} (h : ∀ c ∈ ds, c.isDigit = true) (point : Int) :
    (positional ds point).toList ∈ floats := by
  have hpadded : ∀ c ∈ List.replicate (1 - point).toNat '0' ++ ds, c.isDigit = true :=
    List.forall_mem_append.mpr ⟨fun c => isDigit_of_mem_replicate, h⟩
  rw [positional]
  simp only [String.toList_ofList]
  refine mem_floats_of_point ?_ ?_ ?_
  · exact List.forall_mem_append.mpr
      ⟨fun c hc => hpadded c (List.mem_of_mem_take hc), fun c => isDigit_of_mem_replicate⟩
  · split
    · exact List.cons_ne_nil _ _
    · next hne => simpa using hne
  · split
    · simp
    · exact fun c hc => hpadded c (List.mem_of_mem_drop hc)

/-- An exponent behind its letter and sign. -/
theorem paddedDigits_mem_exponents {sign : Char} (hsign : sign = '+' ∨ sign = '-') (width n : Nat) :
    'e' :: sign :: (paddedDigits width n).toList ∈ exponents := by
  have hne : (paddedDigits width n).toList ≠ [] := by
    rw [paddedDigits]
    simp [Nat.toDigits_ne_nil]
  have hdigits : ∀ c ∈ (paddedDigits width n).toList, [c] ∈ digits := by
    rw [paddedDigits, String.toList_ofList]
    exact fun c hc => mem_digits ((List.mem_append.mp hc).elim isDigit_of_mem_replicate
      isDigit_of_mem_toDigits)
  rw [exponents, mul_assoc]
  have hoptional : [sign] ∈ optional (anyOf ['+', '-']) :=
    mem_optional (mem_anyOf (by simpa using hsign))
  exact cons_mem_mul (mem_anyOf (by simp))
    (Language.append_mem_mul hoptional (mem_many_of_forall hne hdigits))

/-- The text of a decimal is a number, unless it is zero with an exponent. -/
theorem Digits.text_mem_floats {d : Digits} (h : d.digits ≠ 0 ∨ d.exponent = 0) :
    (d.text plainLayout).toList ∈ floats := by
  have hdigits : ∀ c ∈ ((Nat.toDigits 10 d.digits).reverse.dropWhile (· = '0')).reverse,
      c.isDigit = true := by
    intro c hc
    have hmem := (List.dropWhile_suffix _).subset (List.mem_reverse.mp hc)
    exact isDigit_of_mem_toDigits (List.mem_reverse.mp hmem)
  rw [Digits.text]
  simp only
  split
  · exact positional_mem_floats hdigits _
  · next hrange =>
    have hzero : d.digits ≠ 0 := by
      intro hzero
      have hexponent := h.resolve_left (not_not_intro hzero)
      rw [hzero, hexponent] at hrange
      exact hrange (by decide)
    obtain ⟨first, others, hall, hfirst, -⟩ := exists_toDigits hzero
    have hne : ((Nat.toDigits 10 d.digits).reverse.dropWhile (· = '0')).reverse ≠ [] := by
      rw [ne_eq, List.reverse_eq_nil_iff, List.dropWhile_eq_nil_iff]
      intro hzeros
      have hfirst' := hzeros first (by simp [hall])
      rw [of_decide_eq_true hfirst'] at hfirst
      exact absurd hfirst (by decide)
    obtain ⟨c, fraction, hsplit⟩ := List.exists_cons_of_ne_nil hne
    rw [hsplit] at hdigits ⊢
    rw [List.forall_mem_cons] at hdigits
    simp only [String.toList_append, String.toList_ofList, List.take_succ_cons, List.take_zero,
      List.drop_one, List.tail_cons, List.append_assoc, List.singleton_append]
    refine mem_floats_of_exponent hdigits.1 hdigits.2 ?_
    split
    · exact paddedDigits_mem_exponents (.inr rfl) _ _
    · exact paddedDigits_mem_exponents (.inl rfl) _ _

/-! ## Shortest decimals -/

theorem tenTo_pos (k : Nat) : 0 < tenTo k := Nat.pow_pos (by decide)

namespace Magnitude

/-- Zero does not read back as another value. -/
theorem contains_zero {v : Magnitude} (hm : v.m ≠ 0) : v.contains 0 = false := by
  have hlow : 0 < v.low := by
    rw [low]
    refine Nat.mul_pos (Nat.mul_pos ?_ (Nat.two_pow_pos _)) (tenTo_pos scale)
    split <;> omega
  rw [contains]
  simp only [Nat.zero_mul]
  split
  · simp; omega
  · simp

theorem digits_of_neighbour? {v : Magnitude} {n : Nat} {d : Digits} (hm : v.m ≠ 0)
    (h : v.neighbour? n = some d) : d.digits ≠ 0 := by
  rw [neighbour?] at h
  split at h
  · next hbelow =>
    obtain rfl := Option.some.inj h
    intro hzero
    simp only at hzero
    rw [hzero, Nat.zero_mul, contains_zero hm] at hbelow
    exact absurd hbelow.1 (by decide)
  · split at h
    · obtain rfl := Option.some.inj h
      exact Nat.succ_ne_zero _
    · cases h

theorem shortest_cases {v : Magnitude} (hm : v.m ≠ 0) :
    v.shortest.digits ≠ 0 ∨ v.shortest.exponent = 0 := by
  rw [shortest]
  cases h : (List.range 17).findSome? fun n => v.neighbour? (n + 1) with
  | none => exact .inr rfl
  | some d =>
    obtain ⟨n, -, hn⟩ := List.exists_of_findSome?_eq_some h
    exact .inl (digits_of_neighbour? hm hn)

end Magnitude

theorem magnitudeOfBits_ne_zero {bits : Nat} (h : bits ≠ 0) : (magnitudeOfBits bits).m ≠ 0 := by
  rw [magnitudeOfBits]
  split
  · next hexponent =>
    simp only
    have := Nat.div_add_mod bits (twoTo 52)
    rw [hexponent] at this
    omega
  · have : 0 < twoTo 52 := Nat.two_pow_pos _
    simp only
    omega

/-- The text of a double is a number or one of two words, possibly behind a minus sign. -/
theorem floatText_cases (x : Float) :
    ∃ sign word, (floatText x).toList = sign ++ word ∧ (sign = [] ∨ sign = ['-']) ∧
      (word ∈ floats ∨ word = "inf".toList ∨ word = "nan".toList) := by
  rw [floatText]
  split
  · exact ⟨[], _, rfl, .inl rfl, .inr (.inr rfl)⟩
  · next negative _ =>
    cases negative with
    | false => exact ⟨[], _, rfl, .inl rfl, .inr (.inl rfl)⟩
    | true => exact ⟨['-'], _, rfl, .inr rfl, .inr (.inl rfl)⟩
  · next negative bits _ =>
    have hword : (if bits = 0 then "0.0"
        else (magnitudeOfBits bits).shortest.text plainLayout).toList ∈ floats := by
      split
      · exact @mem_floats_of_point ['0'] ['0'] (by simp) (by simp) (by simp)
      · next hbits =>
        exact Digits.text_mem_floats (Magnitude.shortest_cases (magnitudeOfBits_ne_zero hbits))
    rw [String.toList_append]
    refine ⟨_, _, rfl, ?_, .inl hword⟩
    cases negative with
    | false => exact .inl rfl
    | true => exact .inr rfl

end Decimal

end ProtoSchema
