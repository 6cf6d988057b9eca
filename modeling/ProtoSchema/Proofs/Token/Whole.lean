import ProtoSchema.Proofs.Token.Language

/-!
# Whole lexemes

The readers find the longest lexeme, so a lexeme that is followed by nothing it could go on with is
read whole: a numeral is not cut at its point, an integer is not taken for the beginning of a number
with a point, and a word is not cut behind a keyword that it opens with. So whatever terminal is asked
for, a lexeme of it is read as this terminal (`Lexer.lexed?_append`). The one exception are words
that are keywords, which are no names where the keyword may stand.
-/

namespace ProtoSchema

open scoped Computability

namespace Lexeme

/-! ## Taking words apart -/

/-- Every word of a language is one character with a property. -/
def OneOf (p : Char → Bool) (L : Language Char) : Prop := ∀ w ∈ L, ∃ c, w = [c] ∧ p c = true

section

variable {p : Char → Bool} {L M : Language Char}

theorem OneOf.add (hL : OneOf p L) (hM : OneOf p M) : OneOf p (L + M) :=
  fun w hw => hw.elim (hL w) (hM w)

theorem OneOf.between {first last : Char} (h : ∀ c, first ≤ c → c ≤ last → p c = true) :
    OneOf p (between first last) := by
  rintro _ ⟨c, rfl, hfirst, hlast⟩
  exact ⟨c, rfl, h c hfirst hlast⟩

theorem OneOf.word {c : Char} (h : p c = true) : OneOf p (word [c]) := by
  rintro _ rfl
  exact ⟨c, rfl, h⟩

theorem OneOf.anyOf {cs : List Char} (h : ∀ c ∈ cs, p c = true) : OneOf p (anyOf cs) := by
  rintro _ ⟨c, hc, rfl⟩
  exact ⟨c, rfl, h c hc⟩

theorem OneOf.imp {q : Char → Bool} (hL : OneOf p L) (h : ∀ c, p c = true → q c = true) :
    OneOf q L := by
  intro w hw
  obtain ⟨c, hc, hp⟩ := hL w hw
  exact ⟨c, hc, h c hp⟩

theorem OneOf.of_kstar (hL : OneOf p L) {l : List Char} (hl : l ∈ L∗) : ∀ c ∈ l, p c = true := by
  obtain ⟨words, rfl, hwords⟩ := Language.mem_kstar.mp hl
  intro c hc
  obtain ⟨w, hw, hc⟩ := List.mem_flatten.mp hc
  obtain ⟨d, rfl, hd⟩ := hL w (hwords w hw)
  obtain rfl := List.mem_singleton.mp hc
  exact hd

/-- A character with a property and then a word of another language. -/
theorem OneOf.of_mul (hL : OneOf p L) {l : List Char} (hl : l ∈ L * M) :
    ∃ c m, l = c :: m ∧ p c = true ∧ m ∈ M := by
  obtain ⟨w, hw, m, hm, rfl⟩ := Language.mem_mul.mp hl
  obtain ⟨c, rfl, hc⟩ := hL w hw
  exact ⟨c, m, rfl, hc, hm⟩

theorem OneOf.of_many (hL : OneOf p L) {l : List Char} (hl : l ∈ many L) :
    l ≠ [] ∧ ∀ c ∈ l, p c = true := by
  obtain ⟨c, m, rfl, hc, hm⟩ := hL.of_mul hl
  exact ⟨List.cons_ne_nil c m, List.forall_mem_cons.mpr ⟨hc, hL.of_kstar hm⟩⟩

end

theorem oneOf_digits : OneOf Char.isDigit digits :=
  .between fun c hfirst hlast => by
    simp only [Char.isDigit, Bool.and_eq_true, decide_eq_true_eq]
    exact ⟨hfirst, hlast⟩

theorem oneOf_letters : OneOf Char.isAlpha letters := by
  refine .add (.between fun c hfirst hlast => ?_) (.between fun c hfirst hlast => ?_)
  · simp only [Char.isAlpha, Char.isUpper, Bool.or_eq_true, decide_eq_true_eq]
    exact .inl ⟨hfirst, hlast⟩
  · simp only [Char.isAlpha, Char.isLower, Bool.or_eq_true, Bool.and_eq_true, decide_eq_true_eq]
    exact .inr ⟨hfirst, hlast⟩

theorem oneOf_nameStarts : OneOf isNameStart (letters + word ['_']) :=
  .add (oneOf_letters.imp fun c hc => by simp [isNameStart, hc]) (.word rfl)

theorem oneOf_nameParts : OneOf isNamePart (letters + digits + word ['_']) := by
  refine .add (.add (oneOf_letters.imp fun c hc => ?_) (oneOf_digits.imp fun c hc => ?_)) (.word rfl)
  · simp [isNamePart, Char.isAlphanum, hc]
  · simp [isNamePart, Char.isAlphanum, hc]

theorem isDigit_of_value {base n : Nat} {c : Char} (h : Numeral.hexDigit? c = some n)
    (hn : n < base) : Numeral.isDigit base c = true := by
  simp [Numeral.isDigit, Numeral.digit?, h, hn]

theorem hexDigit?_of_decimal {c : Char} (hfirst : '0' ≤ c) (hlast : c ≤ '9') :
    Numeral.hexDigit? c = some (c.toNat - '0'.toNat) := by
  rw [Numeral.hexDigit?, if_pos ⟨hfirst, hlast⟩]

theorem oneOf_hexDigits : OneOf (Numeral.isDigit 16) hexDigits := by
  refine .add (.add (.between fun c hfirst hlast => ?_) (.between fun c hfirst hlast => ?_))
    (.between fun c hfirst hlast => ?_)
  · have hle : c.toNat ≤ 57 := hlast
    exact isDigit_of_value (hexDigit?_of_decimal hfirst hlast) (show c.toNat - 48 < 16 by omega)
  · have hle : c.toNat ≤ 70 := hlast
    have hge : 65 ≤ c.toNat := hfirst
    have hdecimal : ¬ c ≤ '9' := fun h => absurd (show c.toNat ≤ 57 from h) (by omega)
    have hlower : ¬ 'a' ≤ c := fun h => absurd (show 97 ≤ c.toNat from h) (by omega)
    have hvalue : Numeral.hexDigit? c = some (c.toNat - 'A'.toNat + 10) := by
      simp [Numeral.hexDigit?, hdecimal, hlower, hfirst, hlast]
    exact isDigit_of_value hvalue (show c.toNat - 65 + 10 < 16 by omega)
  · have hle : c.toNat ≤ 102 := hlast
    have hge : 97 ≤ c.toNat := hfirst
    have hdecimal : ¬ c ≤ '9' := fun h => absurd (show c.toNat ≤ 57 from h) (by omega)
    have hvalue : Numeral.hexDigit? c = some (c.toNat - 'a'.toNat + 10) := by
      simp [Numeral.hexDigit?, hdecimal, hfirst, hlast]
    exact isDigit_of_value hvalue (show c.toNat - 97 + 10 < 16 by omega)

theorem oneOf_octalDigits : OneOf (Numeral.isDigit 8) (between '0' '7') :=
  .between fun c hfirst hlast => by
    have hle : c.toNat ≤ 55 := hlast
    have hlast : c ≤ '9' := Char.le_trans hlast (by decide)
    exact isDigit_of_value (hexDigit?_of_decimal hfirst hlast) (show c.toNat - 48 < 8 by omega)

/-- A name is a first character and more of them. -/
theorem exists_of_mem_names {l : List Char} (h : l ∈ names) :
    ∃ c cs, l = c :: cs ∧ isNameStart c = true ∧ ∀ x ∈ cs, isNamePart x = true := by
  obtain ⟨c, cs, rfl, hc, hcs⟩ := oneOf_nameStarts.of_mul h
  exact ⟨c, cs, rfl, hc, oneOf_nameParts.of_kstar hcs⟩

/-- An integer is hexadecimal behind its marker, decimal, or octal behind a zero. -/
theorem exists_of_mem_integers {l : List Char} (h : l ∈ integers) :
    (∃ x ds, l = '0' :: x :: ds ∧ (x = 'x' ∨ x = 'X') ∧ ds ≠ [] ∧
      ∀ c ∈ ds, Numeral.isDigit 16 c = true) ∨
    (∃ c ds, l = c :: ds ∧ '1' ≤ c ∧ c ≤ '9' ∧ ∀ c ∈ ds, c.isDigit = true) ∨
    ∃ ds, l = '0' :: ds ∧ ∀ c ∈ ds, Numeral.isDigit 8 c = true := by
  rcases h with (h | h) | h
  · obtain ⟨marker, hmarker, ds, hds, rfl⟩ := Language.mem_mul.mp h
    obtain ⟨_, rfl, _, ⟨x, hx, rfl⟩, rfl⟩ := Language.mem_mul.mp hmarker
    obtain ⟨hne, hall⟩ := oneOf_hexDigits.of_many hds
    exact .inl ⟨x, ds, rfl, by simpa using hx, hne, hall⟩
  · obtain ⟨_, ⟨c, rfl, hfirst, hlast⟩, ds, hds, rfl⟩ := Language.mem_mul.mp h
    exact .inr (.inl ⟨c, ds, rfl, hfirst, hlast, oneOf_digits.of_kstar hds⟩)
  · obtain ⟨_, rfl, ds, hds, rfl⟩ := Language.mem_mul.mp h
    exact .inr (.inr ⟨ds, rfl, oneOf_octalDigits.of_kstar hds⟩)

/-- An exponent is its letter, a sign or none, and digits. -/
theorem exists_of_mem_exponents {l : List Char} (h : l ∈ exponents) :
    ∃ e sign ds, l = e :: (sign ++ ds) ∧ (e = 'e' ∨ e = 'E') ∧
      (sign = [] ∨ sign = ['+'] ∨ sign = ['-']) ∧ ds ≠ [] ∧ ∀ c ∈ ds, c.isDigit = true := by
  rw [exponents, mul_assoc] at h
  obtain ⟨_, ⟨e, he, rfl⟩, _, hrest, rfl⟩ := Language.mem_mul.mp h
  obtain ⟨sign, hsign, ds, hds, rfl⟩ := Language.mem_mul.mp hrest
  obtain ⟨hne, hall⟩ := oneOf_digits.of_many hds
  refine ⟨e, sign, ds, rfl, by simpa using he, ?_, hne, hall⟩
  rcases hsign with hnil | ⟨s, hs, rfl⟩
  · exact .inl hnil
  · exact .inr (by simpa using hs)

/-- A number has a point among its digits, or digits and then an exponent. -/
theorem exists_of_mem_floats {l : List Char} (h : l ∈ floats) :
    ∃ before, (∀ c ∈ before, c.isDigit = true) ∧
      ((∃ behind e, l = before ++ '.' :: (behind ++ e) ∧ (before ≠ [] ∨ behind ≠ []) ∧
        (∀ c ∈ behind, c.isDigit = true) ∧ (e = [] ∨ e ∈ exponents)) ∨
      ∃ e ∈ exponents, l = before ++ e ∧ before ≠ []) := by
  rcases h with h | h
  · obtain ⟨_, hmantissa, e, he, rfl⟩ := Language.mem_mul.mp h
    rcases hmantissa with hmantissa | hmantissa
    · rw [mul_assoc] at hmantissa
      obtain ⟨before, hbefore, _, hpoint, rfl⟩ := Language.mem_mul.mp hmantissa
      obtain ⟨_, rfl, behind, hbehind, rfl⟩ := Language.mem_mul.mp hpoint
      obtain ⟨hne, hall⟩ := oneOf_digits.of_many hbefore
      exact ⟨before, hall, .inl ⟨behind, e, by simp, .inl hne, oneOf_digits.of_kstar hbehind, he⟩⟩
    · obtain ⟨_, rfl, behind, hbehind, rfl⟩ := Language.mem_mul.mp hmantissa
      obtain ⟨hne, hall⟩ := oneOf_digits.of_many hbehind
      exact ⟨[], List.forall_mem_nil _, .inl ⟨behind, e, rfl, .inr hne, hall, he⟩⟩
  · obtain ⟨before, hbefore, e, he, rfl⟩ := Language.mem_mul.mp h
    obtain ⟨hne, hall⟩ := oneOf_digits.of_many hbefore
    exact ⟨before, hall, .inr ⟨e, he, rfl, hne⟩⟩

/-! ## Characters of words -/

theorem isNamePart_of_isNameStart {c : Char} (h : isNameStart c = true) : isNamePart c = true := by
  simp only [isNameStart, decide_eq_true_eq] at h
  simp only [isNamePart, Char.isAlphanum, Bool.or_eq_true, decide_eq_true_eq]
  exact h.imp_left .inl

theorem isNamePart_of_isDigit {c : Char} (h : c.isDigit = true) : isNamePart c = true := by
  simp [isNamePart, Char.isAlphanum, h]

theorem isNamePart_of_names {l : List Char} (h : l ∈ names) : ∀ c ∈ l, isNamePart c = true := by
  obtain ⟨c, cs, rfl, hc, hcs⟩ := exists_of_mem_names h
  exact List.forall_mem_cons.mpr ⟨isNamePart_of_isNameStart hc, hcs⟩

theorem oneOf_hexParts : OneOf isNamePart hexDigits := by
  refine .add (.add (.between fun c hfirst hlast => ?_) (.between fun c hfirst hlast => ?_))
    (.between fun c hfirst hlast => ?_)
  · refine isNamePart_of_isDigit ?_
    simp only [Char.isDigit, Bool.and_eq_true, decide_eq_true_eq]
    exact ⟨hfirst, hlast⟩
  · have hupper : c.isUpper = true := by
      simp only [Char.isUpper, decide_eq_true_eq]
      exact ⟨hfirst, Char.le_trans hlast (by decide)⟩
    simp [isNamePart, Char.isAlphanum, Char.isAlpha, hupper]
  · have hlower : c.isLower = true := by
      simp only [Char.isLower, Bool.and_eq_true, decide_eq_true_eq]
      exact ⟨hfirst, Char.le_trans hlast (by decide)⟩
    simp [isNamePart, Char.isAlphanum, Char.isAlpha, hlower]

theorem isNamePart_of_hexDigit {c : Char} (h : Numeral.isDigit 16 c = true) :
    isNamePart c = true := by
  obtain ⟨_, heq, hpart⟩ := oneOf_hexParts _ (mem_hexDigits h)
  exact List.singleton_injective heq ▸ hpart

theorem isDigit_of_octal {c : Char} (h : Numeral.isDigit 8 c = true) : c.isDigit = true := by
  obtain ⟨_, heq, hfirst, hlast⟩ := mem_octalDigits h
  obtain rfl := List.singleton_injective heq
  simp only [Char.isDigit, Bool.and_eq_true, decide_eq_true_eq]
  exact ⟨hfirst, Char.le_trans hlast (by decide)⟩

/-! ## Readers on whole lexemes -/

/-- A text that does not open with what could continue a word or a numeral. -/
def Apart (tail : List Char) : Prop := ∀ c ∈ tail.head?, isNamePart c = false ∧ c ≠ '.'

theorem takeWhile_append {p : Char → Bool} {l tail : List Char} (hl : ∀ c ∈ l, p c = true)
    (htail : ∀ c ∈ tail.head?, p c = false) : (l ++ tail).takeWhile p = l := by
  rw [List.takeWhile_append_of_pos hl]
  cases tail with
  | nil => rw [List.takeWhile_nil, List.append_nil]
  | cons c tail =>
    rw [List.takeWhile_cons_of_neg (by simp [htail c rfl]), List.append_nil]

variable {l tail : List Char}

theorem Apart.head? {p : Char → Bool} (h : Apart tail)
    (hp : ∀ c, p c = true → isNamePart c = true) : ∀ c ∈ tail.head?, p c = false := by
  intro c hc
  rw [Bool.eq_false_iff]
  intro hpc
  cases (hp c hpc).symm.trans (h c hc).1

/-- No numeral goes on with the letter of an exponent or the marker of another base. -/
theorem Apart.ne (h : Apart tail) {c : Char} (hpart : isNamePart c = true) :
    ∀ d ∈ tail.head?, d ≠ c := by
  rintro d hd rfl
  cases hpart.symm.trans (h d hd).1

theorem name?_append (h : l ∈ names) (htail : ∀ c ∈ tail.head?, isNamePart c = false) :
    name? (l ++ tail) = some l := by
  obtain ⟨c, cs, rfl, hc, hcs⟩ := exists_of_mem_names h
  rw [List.cons_append, name?, if_pos hc, takeWhile_append hcs htail]

theorem int?_append (h : l ∈ integers) (htail : Apart tail) : int? (l ++ tail) = some l := by
  rcases exists_of_mem_integers h with
    ⟨x, ds, rfl, hx, hne, hds⟩ | ⟨c, ds, rfl, hfirst, hlast, hds⟩ | ⟨ds, rfl, hds⟩
  · rw [List.cons_append, List.cons_append, int?]
    simp only [takeWhile_append hds (htail.head? fun _ => isNamePart_of_hexDigit)]
    rw [if_pos ⟨hx, hne⟩]
  · have hdigit : c.isDigit = true := by
      simp only [Char.isDigit, Bool.and_eq_true, decide_eq_true_eq]
      exact ⟨Char.le_trans (by decide) hfirst, hlast⟩
    have hzero : c ≠ '0' := by
      rintro rfl
      exact absurd hfirst (by decide)
    rw [List.cons_append, int?, if_pos hdigit,
      takeWhile_append hds (htail.head? fun _ => isNamePart_of_isDigit)]
    exact fun _ _ h => absurd h hzero
  · cases hds' : ds ++ tail with
    | nil =>
      obtain ⟨rfl, rfl⟩ := List.append_eq_nil_iff.mp hds'
      rfl
    | cons x cs =>
      have hx : ¬ (x = 'x' ∨ x = 'X') := by
        cases ds with
        | nil =>
          have hx : x ∈ tail.head? := by rw [← List.nil_append tail, hds']; rfl
          exact not_or.mpr ⟨htail.ne (by decide) x hx, htail.ne (by decide) x hx⟩
        | cons d ds =>
          obtain rfl : d = x := (List.cons.inj hds').1
          have hd := hds d List.mem_cons_self
          rintro (rfl | rfl) <;> exact absurd hd (by decide)
      rw [List.cons_append, hds', int?]
      simp only [hx, false_and, if_false]
      rw [← hds', takeWhile_append hds
        (htail.head? fun _ h => isNamePart_of_isDigit (isDigit_of_octal h))]

/-- Digits and what follows them up to the next digit. -/
theorem float?_append_of_digits {before rest : List Char} (hbefore : ∀ c ∈ before, c.isDigit = true)
    (hrest : ∀ c ∈ rest.head?, c.isDigit = false) :
    float? (before ++ rest) =
      match fraction? (before ≠ []) rest with
      | some (c :: behind) => some (before ++ c :: behind)
      | _ => none := by
  rw [float?]
  simp only [takeWhile_append hbefore hrest, List.drop_left]
  split <;> simp_all

theorem exponent?_append (h : l ∈ exponents) (htail : Apart tail) :
    exponent? (l ++ tail) = some l := by
  obtain ⟨e, sign, ds, rfl, he, hsign, hne, hds⟩ := exists_of_mem_exponents h
  have hdigits := takeWhile_append (p := Char.isDigit) hds
    (htail.head? fun _ => isNamePart_of_isDigit)
  have hsigned : signedDigits? (sign ++ ds ++ tail) = some (sign ++ ds) := by
    rcases hsign with rfl | rfl | rfl
    · obtain ⟨d, ds, rfl⟩ := List.exists_cons_of_ne_nil hne
      have hd := hds d List.mem_cons_self
      have hsign : ¬ (d = '+' ∨ d = '-') := by
        rintro (rfl | rfl) <;> exact absurd hd (by decide)
      rw [List.nil_append, List.cons_append, signedDigits?, if_neg hsign, ← List.cons_append]
      simp only [hdigits]
      rw [if_neg hne]
    · simp only [List.cons_append, List.nil_append, signedDigits?, true_or, if_true, hdigits]
      rw [if_neg hne]
    · simp only [List.cons_append, List.nil_append, signedDigits?, or_true, if_true, hdigits]
      rw [if_neg hne]
  rw [List.cons_append, exponent?, if_pos he, hsigned]
  rfl

theorem exponent?_apart (htail : Apart tail) : exponent? tail = none := by
  cases tail with
  | nil => rfl
  | cons c tail =>
    rw [exponent?, if_neg]
    exact not_or.mpr ⟨htail.ne (by decide) c rfl, htail.ne (by decide) c rfl⟩

theorem float?_append (h : l ∈ floats) (htail : Apart tail) : float? (l ++ tail) = some l := by
  obtain ⟨before, hbefore, h⟩ := exists_of_mem_floats h
  rcases h with ⟨behind, e, rfl, hne, hbehind, he⟩ | ⟨e, he, rfl, hne⟩
  · have hexponent : (exponent? (e ++ tail)).getD [] = e := by
      rcases he with rfl | he
      · rw [List.nil_append, exponent?_apart htail]
        rfl
      · rw [exponent?_append he htail]
        rfl
    have hletter : ∀ c ∈ (e ++ tail).head?, c.isDigit = false := by
      rcases he with rfl | he
      · exact htail.head? fun _ => isNamePart_of_isDigit
      · obtain ⟨x, sign, ds, rfl, hx, -⟩ := exists_of_mem_exponents he
        rintro c hc
        obtain rfl := Option.some.inj hc
        rcases hx with rfl | rfl <;> decide
    have hdigits : (behind ++ (e ++ tail)).takeWhile Char.isDigit = behind :=
      takeWhile_append hbehind hletter
    have hfraction : fraction? (before ≠ []) ('.' :: (behind ++ (e ++ tail))) =
        some ('.' :: (behind ++ e)) := by
      rw [fraction?]
      simp only [hdigits, List.drop_left, hexponent]
      rw [if_pos (by simpa using hne)]
    have hpoint : ∀ c ∈ ('.' :: (behind ++ (e ++ tail))).head?, c.isDigit = false := by
      rintro c hc
      obtain rfl := Option.some.inj hc
      decide
    rw [List.append_assoc, List.cons_append, List.append_assoc,
      float?_append_of_digits hbefore hpoint, hfraction]
  · obtain ⟨x, sign, ds, rfl, hx, -⟩ := exists_of_mem_exponents he
    have hletter : ∀ c ∈ (x :: (sign ++ ds) ++ tail).head?, c.isDigit = false := by
      rintro c hc
      obtain rfl := Option.some.inj hc
      rcases hx with rfl | rfl <;> decide
    have hfraction : fraction? (before ≠ []) (x :: (sign ++ ds) ++ tail) =
        some (x :: (sign ++ ds)) := by
      rw [← exponent?_append he htail, List.cons_append, fraction?]
      · rw [if_pos (by simpa using hne)]
      · intro cs heq
        obtain rfl := (List.cons.inj heq).1
        simp at hx
    rw [List.append_assoc, float?_append_of_digits hbefore hletter, hfraction]

/-! ## What is no number -/

theorem float?_eq_none {c : Char} {cs : List Char} (hdigit : c.isDigit = false) (hpoint : c ≠ '.') :
    float? (c :: cs) = none := by
  have hnone : fraction? (decide (([] : List Char) ≠ [])) (c :: cs) = none := by
    rw [fraction?]
    · rfl
    · exact fun _ heq => absurd (List.cons.inj heq).1 hpoint
  have hhead : ∀ x ∈ (c :: cs).head?, x.isDigit = false := by
    rintro x hx
    obtain rfl := Option.some.inj hx
    exact hdigit
  have h := float?_append_of_digits (List.forall_mem_nil _) hhead
  rw [hnone] at h
  exact h

/-- A point without digits behind it is no number. -/
theorem float?_dot (h : ∀ c ∈ tail.head?, c.isDigit = false) : float? ('.' :: tail) = none := by
  have hdigits : tail.takeWhile Char.isDigit = [] := by
    have := takeWhile_append (List.forall_mem_nil _) h
    rwa [List.nil_append] at this
  have hfraction : fraction? (decide (([] : List Char) ≠ [])) ('.' :: tail) = none := by
    rw [fraction?]
    simp [hdigits]
  have hhead : ∀ x ∈ ('.' :: tail).head?, x.isDigit = false := by
    rintro x hx
    obtain rfl := Option.some.inj hx
    decide
  have hread := float?_append_of_digits (List.forall_mem_nil _) hhead
  rwa [hfraction] at hread

/-- An integer does not go on as a number with a point or an exponent. -/
theorem float?_append_of_integers (h : l ∈ integers) (htail : Apart tail) :
    float? (l ++ tail) = none := by
  have hplain {ds : List Char} (hds : ∀ c ∈ ds, c.isDigit = true) : float? (ds ++ tail) = none := by
    rw [float?_append_of_digits hds (htail.head? fun _ => isNamePart_of_isDigit)]
    have hfraction (b : Bool) : fraction? b tail = none := by
      rw [fraction?]
      · rw [exponent?_apart htail, ite_self]
      · rintro cs rfl
        exact (htail '.' rfl).2 rfl
    rw [hfraction]
  rcases exists_of_mem_integers h with
    ⟨x, ds, rfl, hx, -, -⟩ | ⟨c, ds, rfl, hfirst, hlast, hds⟩ | ⟨ds, rfl, hds⟩
  · have hmarker : ∀ c ∈ (x :: ds ++ tail).head?, c.isDigit = false := by
      rintro c hc
      obtain rfl := Option.some.inj hc
      rcases hx with rfl | rfl <;> decide
    have hzero : ∀ c ∈ ['0'], c.isDigit = true := by simp
    have hread := float?_append_of_digits hzero hmarker
    rcases hx with rfl | rfl <;> exact hread
  · refine hplain (List.forall_mem_cons.mpr ⟨?_, hds⟩)
    simp only [Char.isDigit, Bool.and_eq_true, decide_eq_true_eq]
    exact ⟨Char.le_trans (by decide) hfirst, hlast⟩
  · exact hplain (List.forall_mem_cons.mpr ⟨by decide, fun c hc => isDigit_of_octal (hds c hc)⟩)

/-! ## Strings -/

/-- The characters of a string literal, a backslash together with what it protects. -/
theorem stringRest?_append {delimiter : Char} (hquote : delimiter = '"' ∨ delimiter = '\'')
    {body : List Char}
    (h : body ∈ (noneOf [delimiter, '\\', '\n'] + word ['\\'] * noneOf ['\n'])∗) :
    stringRest? delimiter (body ++ delimiter :: tail) = some (body ++ [delimiter]) := by
  obtain ⟨words, rfl, hwords⟩ := Language.mem_kstar.mp h
  clear h
  induction words with
  | nil =>
    rcases hquote with rfl | rfl <;> simp [stringRest?]
  | cons w words ih =>
    rw [List.forall_mem_cons] at hwords
    have ih := ih hwords.2
    rcases hwords.1 with ⟨c, hc, rfl⟩ | hescape
    · simp only [List.mem_cons, List.not_mem_nil, or_false, not_or] at hc
      rw [List.flatten_cons, List.append_assoc, List.append_assoc, List.singleton_append,
        List.singleton_append, stringRest?, ih]
      · simp [hc]
      · exact fun _ _ heq _ => absurd heq hc.2.1
    · obtain ⟨_, rfl, _, ⟨c, hc, rfl⟩, rfl⟩ := Language.mem_mul.mp hescape
      rw [List.mem_singleton] at hc
      simp [stringRest?, ih, hc]

theorem string?_append (h : l ∈ strings) : string? (l ++ tail) = some l := by
  have hquoted {delimiter : Char} (hquote : delimiter = '"' ∨ delimiter = '\'')
      (h : l ∈ quoted delimiter) : string? (l ++ tail) = some l := by
    rw [quoted, mul_assoc] at h
    obtain ⟨_, rfl, _, hrest, rfl⟩ := Language.mem_mul.mp h
    obtain ⟨body, hbody, _, rfl, rfl⟩ := Language.mem_mul.mp hrest
    have hread : stringRest? delimiter (body ++ delimiter :: tail) = some (body ++ [delimiter]) :=
      stringRest?_append hquote hbody
    rw [List.append_assoc, List.singleton_append, List.append_assoc, List.singleton_append, string?,
      if_pos hquote, hread]
    rfl
  exact h.elim (hquoted (.inl rfl)) (hquoted (.inr rfl))

/-! ## First characters -/

section

variable {c : Char} {cs : List Char}

theorem int?_eq_none (h : c.isDigit = false) : int? (c :: cs) = none := by
  rw [int?]
  · simp [h]
  · rintro _ _ rfl
    exact absurd h (by decide)

theorem string?_eq_none (h : c ≠ '"' ∧ c ≠ '\'') : string? (c :: cs) = none := by
  rw [string?, if_neg (not_or.mpr h)]

theorem name?_eq_none (h : isNameStart c = false) : name? (c :: cs) = none := by
  rw [name?, h]
  rfl

theorem blank?_eq_none (hblank : isBlank c = false) (hslash : c ≠ '/') :
    blank? (c :: cs) = none := by
  rw [blank?]
  · simp [hblank]
  · exact fun _ heq => absurd heq hslash
  · exact fun _ heq => absurd heq hslash

/-- What opens a name opens no other class of lexemes. -/
theorem ne_of_isNameStart (h : isNameStart c = true) :
    c.isDigit = false ∧ c ≠ '.' ∧ c ≠ '"' ∧ c ≠ '\'' := by
  refine ⟨?_, ?_, ?_, ?_⟩
  · rw [Bool.eq_false_iff]
    intro hdigit
    simp only [isNameStart, Char.isAlpha, Char.isUpper, Char.isLower, Bool.or_eq_true,
      Bool.and_eq_true, decide_eq_true_eq] at h
    simp only [Char.isDigit, Bool.and_eq_true, decide_eq_true_eq] at hdigit
    have hle : c.toNat ≤ 57 := hdigit.2
    rcases h with (h | h) | rfl
    · exact absurd (show 65 ≤ c.toNat from h.1) (by omega)
    · exact absurd (show 97 ≤ c.toNat from h.1) (by omega)
    · exact absurd hdigit (by decide)
  all_goals
    rintro rfl
    exact absurd h (by decide)

end

end Lexeme

namespace Keyword

theorem spelling_mem_names (k : Keyword) : k.spelling.toList ∈ Lexeme.names := by
  have h : ∃ c cs, k.spelling.toList = c :: cs ∧ Lexeme.isNameStart c = true ∧
      cs.all Lexeme.isNamePart = true := by
    cases k <;> exact ⟨_, _, rfl, by decide, by decide⟩
  obtain ⟨c, cs, heq, hc, hcs⟩ := h
  rw [heq]
  exact Lexeme.cons_mem_mul (Lexeme.mem_names_start hc)
    (Lexeme.mem_kstar_of_forall fun x hx =>
      Lexeme.mem_names_part (List.all_eq_true.mp hcs x hx))

@[simp]
theorem ofSpelling?_spelling (k : Keyword) : ofSpelling? k.spelling.toList = some k := by
  cases k <;> decide

/-- No keyword opens one that comes after it. -/
theorem pairwise_all : all.Pairwise fun k l => ¬ k.spelling.toList <+: l.spelling.toList := by
  decide

end Keyword

theorem Mark.character_injective : Function.Injective character := by
  have h : ∀ m ∈ all, ∀ m' ∈ all, m.character = m'.character → m = m' := by decide
  exact fun m m' => h m m.mem_all m' m'.mem_all

/-- A text in front of which a lexeme of a terminal is read whole: the text does not open with what
the lexeme could go on with. -/
def Terminal.Stops : Terminal → List Char → Prop
  | .name, tail | .keyword _, tail => ∀ c ∈ tail.head?, Lexeme.isNamePart c = false
  | .int, tail | .float, tail => Lexeme.Apart tail
  | .mark .dot, tail => ∀ c ∈ tail.head?, c.isDigit = false
  | .string, _ | .mark _, _ => True

theorem Lexeme.Apart.stops {tail : List Char} (h : Lexeme.Apart tail) (t : Terminal) :
    t.Stops tail := by
  cases t with
  | name | keyword => exact fun c hc => (h c hc).1
  | int | float => exact h
  | string => trivial
  | mark m =>
    cases m with
    | dot => exact h.head? fun _ => Lexeme.isNamePart_of_isDigit
    | _ => trivial

namespace Lexer

variable {accept : Terminal → Bool}

theorem ofClass?_of_some {t : Terminal} {read : List Char → Option (List Char)}
    {cs l : List Char} (ht : accept t = true) (h : read cs = some l) :
    ofClass? accept t read cs = some (t, l) := by
  rw [ofClass?, if_pos ht, h]
  rfl

theorem ofClass?_of_none {t : Terminal} {read : List Char → Option (List Char)} {cs : List Char}
    (h : read cs = none) : ofClass? accept t read cs = none := by
  rw [ofClass?, h]
  simp

theorem word?_of_none {cs : List Char} (h : Lexeme.name? cs = none) : word? accept cs = none := by
  rw [word?, h]
  rfl

/-- Keywords open with what opens a name. -/
theorem keyword?_eq_none {c : Char} {cs : List Char} (h : Lexeme.isNameStart c = false) :
    keyword? accept (c :: cs) = none := by
  rw [keyword?, Option.map_eq_none_iff, List.find?_eq_none]
  intro k _ hk
  rw [Bool.and_eq_true] at hk
  obtain ⟨d, ds, hspelling, hd, -⟩ := Lexeme.exists_of_mem_names k.spelling_mem_names
  have hfront := List.isPrefixOf_iff_prefix.mp hk.2
  rw [hspelling, List.cons_prefix_cons] at hfront
  rw [hfront.1, h] at hd
  cases hd

theorem mark?_character {m : Mark} {cs : List Char} (h : accept (.mark m) = true) :
    mark? accept (m.character :: cs) = some (.mark m, [m.character]) := by
  have hm : (accept (.mark m) && m.character == m.character) = true := by simp [h]
  have hsome : (Mark.all.find? fun m' => accept (.mark m') && m'.character == m.character).isSome :=
    List.find?_isSome.mpr ⟨m, m.mem_all, hm⟩
  obtain ⟨first, hfirst⟩ := Option.isSome_iff_exists.mp hsome
  have hcharacter := List.find?_some hfirst
  rw [Bool.and_eq_true, beq_iff_eq] at hcharacter
  have hsame : first = m := Mark.character_injective hcharacter.2
  rw [mark?, hfirst, hsame]
  rfl

/-- The words of a text that has no numeral or string in front. -/
theorem lexed?_of_isNameStart {c : Char} {cs : List Char} (h : Lexeme.isNameStart c = true) :
    lexed? accept (c :: cs) =
      ((if accept .name then word? accept (c :: cs) else keyword? accept (c :: cs)) <|>
        mark? accept (c :: cs)) := by
  obtain ⟨hdigit, hpoint, hdouble, hsingle⟩ := Lexeme.ne_of_isNameStart h
  have hfloat : Lexeme.float? (c :: cs) = none := Lexeme.float?_eq_none hdigit hpoint
  have hint : Lexeme.int? (c :: cs) = none := Lexeme.int?_eq_none hdigit
  have hstring : Lexeme.string? (c :: cs) = none := Lexeme.string?_eq_none ⟨hdouble, hsingle⟩
  rw [lexed?, ofClass?_of_none hfloat, ofClass?_of_none hint, ofClass?_of_none hstring]
  rfl

/-- A keyword at the end of a word is the longest that its text opens with. -/
theorem keyword?_append {k : Keyword} {tail : List Char} (haccept : accept (.keyword k) = true)
    (htail : ∀ c ∈ tail.head?, Lexeme.isNamePart c = false) :
    keyword? accept (k.spelling.toList ++ tail) = some (.keyword k, k.spelling.toList) := by
  have hk : (accept (.keyword k) && k.spelling.toList.isPrefixOf (k.spelling.toList ++ tail)) =
      true := by
    rw [haccept, Bool.true_and, List.isPrefixOf_iff_prefix]
    exact List.prefix_append _ _
  have hsome : (Keyword.all.find? fun k' => accept (.keyword k') &&
      k'.spelling.toList.isPrefixOf (k.spelling.toList ++ tail)).isSome :=
    List.find?_isSome.mpr ⟨k, k.mem_all, hk⟩
  obtain ⟨first, hfirst⟩ := Option.isSome_iff_exists.mp hsome
  obtain ⟨hfront, before, behind, hall, hbefore⟩ := List.find?_eq_some_iff_append.mp hfirst
  suffices hsame : first = k by
    rw [keyword?, hfirst, hsame]
    rfl
  rw [Bool.and_eq_true] at hfront
  have hfront := List.isPrefixOf_iff_prefix.mp hfront.2
  -- the keyword that is found does not reach beyond the word
  have hwithin : first.spelling.toList <+: k.spelling.toList := by
    refine (List.prefix_or_prefix_of_prefix hfront (List.prefix_append _ _)).elim id ?_
    rintro ⟨more, hmore⟩
    rw [← hmore, List.prefix_append_right_inj] at hfront
    cases more with
    | nil => rw [← hmore, List.append_nil]
    | cons c more =>
      obtain ⟨rest, rfl⟩ := hfront
      have hc : c ∈ first.spelling.toList := by
        rw [← hmore]
        exact List.mem_append_right _ List.mem_cons_self
      cases (Lexeme.isNamePart_of_names first.spelling_mem_names c hc).symm.trans (htail c rfl)
  have hmem := k.mem_all
  rw [hall, List.mem_append, List.mem_cons] at hmem
  rcases hmem with hmem | rfl | hmem
  · have hnot := hbefore k hmem
    rw [hk] at hnot
    cases hnot
  · rfl
  · have hpairwise := Keyword.pairwise_all
    rw [hall] at hpairwise
    have hlater := (List.pairwise_cons.mp (List.pairwise_append.mp hpairwise).2.1).1 k hmem
    exact absurd hwithin hlater

/-- Wherever a terminal is accepted, its lexemes are read as this terminal in front of what they
cannot go on with. Words that are keywords are read as names where the keyword is not accepted. -/
theorem lexed?_append {t : Terminal} {l tail : List Char} (haccept : accept t = true)
    (hl : l ∈ t.language)
    (hname : t = .name → ∀ k, Keyword.ofSpelling? l = some k → accept (.keyword k) = false)
    (htail : t.Stops tail) : lexed? accept (l ++ tail) = some (t, l) := by
  cases t with
  | name =>
    obtain ⟨c, cs, rfl, hc, -⟩ := Lexeme.exists_of_mem_names hl
    have hword : word? accept (c :: cs ++ tail) = some (.name, c :: cs) := by
      rw [word?, Lexeme.name?_append hl htail, Option.map_some]
      split
      · next k hk => rw [hname rfl k hk, if_neg Bool.false_ne_true]
      · rfl
    rw [List.cons_append, lexed?_of_isNameStart hc, if_pos haccept, ← List.cons_append, hword]
    rfl
  | int =>
    have hfloat : Lexeme.float? (l ++ tail) = none := Lexeme.float?_append_of_integers hl htail
    rw [lexed?, ofClass?_of_none hfloat, ofClass?_of_some haccept (Lexeme.int?_append hl htail)]
    rfl
  | float =>
    rw [lexed?, ofClass?_of_some haccept (Lexeme.float?_append hl htail)]
    rfl
  | string =>
    obtain ⟨c, cs, rfl, hquote⟩ : ∃ c cs, l = c :: cs ∧ (c = '"' ∨ c = '\'') := by
      have hread : Lexeme.string? (l ++ []) = some l := Lexeme.string?_append hl
      rw [List.append_nil] at hread
      cases l with
      | nil => cases hread
      | cons c cs =>
        rw [Lexeme.string?] at hread
        split at hread
        · next hquote => exact ⟨c, cs, rfl, hquote⟩
        · cases hread
    have hfloat : Lexeme.float? (c :: cs ++ tail) = none := by
      rcases hquote with rfl | rfl <;> exact Lexeme.float?_eq_none (by decide) (by decide)
    have hint : Lexeme.int? (c :: cs ++ tail) = none := by
      rcases hquote with rfl | rfl <;> exact Lexeme.int?_eq_none (by decide)
    rw [lexed?, ofClass?_of_none hfloat, ofClass?_of_none hint,
      ofClass?_of_some haccept (Lexeme.string?_append hl)]
    rfl
  | keyword k =>
    obtain rfl : l = k.spelling.toList := hl
    obtain ⟨c, cs, hspelling, hc, -⟩ := Lexeme.exists_of_mem_names k.spelling_mem_names
    have hword : (if accept .name then word? accept (k.spelling.toList ++ tail)
        else keyword? accept (k.spelling.toList ++ tail)) =
          some (.keyword k, k.spelling.toList) := by
      split
      · rw [word?, Lexeme.name?_append k.spelling_mem_names htail,
          Option.map_some, Keyword.ofSpelling?_spelling]
        simp only [haccept, if_true]
      · exact keyword?_append haccept htail
    rw [hspelling, List.cons_append] at hword ⊢
    rw [lexed?_of_isNameStart hc, hword]
    rfl
  | mark m =>
    obtain rfl : l = [m.character] := hl
    rw [List.singleton_append]
    have hfloat : Lexeme.float? (m.character :: tail) = none := by
      by_cases hm : m = .dot
      · subst hm
        exact Lexeme.float?_dot htail
      · cases m <;> first | exact absurd rfl hm | exact Lexeme.float?_eq_none (by decide) (by decide)
    have hint : Lexeme.int? (m.character :: tail) = none :=
      Lexeme.int?_eq_none (by cases m <;> decide)
    have hstring : Lexeme.string? (m.character :: tail) = none :=
      Lexeme.string?_eq_none (by cases m <;> decide)
    have hstart : Lexeme.isNameStart m.character = false := by cases m <;> decide
    have hword : (if accept .name then word? accept (m.character :: tail)
        else keyword? accept (m.character :: tail)) = none := by
      split
      · exact word?_of_none (Lexeme.name?_eq_none hstart)
      · exact keyword?_eq_none hstart
    rw [lexed?, ofClass?_of_none hfloat, ofClass?_of_none hint, ofClass?_of_none hstring, hword,
      mark?_character haccept]
    rfl

end Lexer

end ProtoSchema
