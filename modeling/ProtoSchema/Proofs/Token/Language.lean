import Mathlib
import ProtoSchema.Token.Lexer

/-!
# Lexical languages

The language of each terminal, of blanks and of comments, written with the operations on languages:
a sum is a choice, a product one after the other, a star any number of times. What the lexeme
readers return belongs to the language of their class, so that a token which is read has a lexeme of
its terminal (`Lexer.mem_language_of_lexed?`).

A layout is how tokens lie in a text: in their order, each at the place that it names and with a
lexeme of its terminal, and with nothing but blanks and comments between, before and behind them.
The lexer takes texts apart in this way.
-/

namespace ProtoSchema

open scoped Computability

namespace Lexeme

/-! ## Characters and words -/

/-- One word. -/
def word (w : List Char) : Language Char := {w}

/-- One character between two others. -/
def between (first last : Char) : Language Char := {l | ∃ c, l = [c] ∧ first ≤ c ∧ c ≤ last}

/-- One of some characters. -/
def anyOf (cs : List Char) : Language Char := {l | ∃ c ∈ cs, l = [c]}

/-- One character but some. -/
def noneOf (cs : List Char) : Language Char := {l | ∃ c ∉ cs, l = [c]}

/-- At least one word of a language after the other. -/
def many (L : Language Char) : Language Char := L * L∗

/-- A word of a language or nothing. -/
def optional (L : Language Char) : Language Char := 1 + L

/-! ## Classes of lexemes -/

/-- Letters without accents. -/
def letters : Language Char := between 'A' 'Z' + between 'a' 'z'

/-- Decimal digits. -/
def digits : Language Char := between '0' '9'

/-- Hexadecimal digits. -/
def hexDigits : Language Char := between '0' '9' + between 'A' 'F' + between 'a' 'f'

/-- A letter or underscore, then letters, digits and underscores. -/
def names : Language Char := (letters + word ['_']) * (letters + digits + word ['_'])∗

/-- A hexadecimal numeral behind its marker, a decimal numeral without leading zero, or an octal
numeral behind a zero. -/
def integers : Language Char :=
  word ['0'] * anyOf ['x', 'X'] * many hexDigits + between '1' '9' * digits∗ +
    word ['0'] * (between '0' '7')∗

/-- The letter `e`, possibly a sign, and digits. -/
def exponents : Language Char := anyOf ['e', 'E'] * optional (anyOf ['+', '-']) * many digits

/-- Digits with a point among, before or behind them and possibly an exponent, or digits with an
exponent. -/
def floats : Language Char :=
  (many digits * word ['.'] * digits∗ + word ['.'] * many digits) * optional exponents +
    many digits * exponents

/-- A literal between two equal delimiters: no line ends in it, and neither the delimiter nor a
backslash stands there but behind a backslash. -/
def quoted (delimiter : Char) : Language Char :=
  word [delimiter] * (noneOf [delimiter, '\\', '\n'] + word ['\\'] * noneOf ['\n'])∗ *
    word [delimiter]

/-- A literal between double or single quotes. -/
def strings : Language Char := quoted '"' + quoted '\''

/-- Blanks. -/
def blanks : Language Char := many (anyOf [' ', '\t', '\x0c', '\r', '\n'])

/-- A comment to the end of the line. -/
def lineComments : Language Char := word ['/', '/'] * (noneOf ['\n'])∗

/-- Texts without the mark that closes a comment. -/
def unclosed : Language Char := {body | ¬ ['*', '/'] <:+: body}

/-- A comment up to its first closing mark. -/
def blockComments : Language Char := word ['/', '*'] * unclosed * word ['*', '/']

/-- What may stand between tokens: blanks and comments, or nothing at all. -/
def gaps : Language Char := (blanks + lineComments + blockComments)∗

end Lexeme

/-- The lexemes of a terminal. -/
def Terminal.language : Terminal → Language Char
  | .name => Lexeme.names
  | .int => Lexeme.integers
  | .float => Lexeme.floats
  | .string => Lexeme.strings
  | .keyword k => Lexeme.word k.spelling.toList
  | .mark m => Lexeme.word [m.character]

namespace Lexeme

/-! ## Words of the operations -/

theorem mem_word_self (w : List Char) : w ∈ word w := Set.mem_singleton w

theorem mem_anyOf {c : Char} {cs : List Char} (h : c ∈ cs) : [c] ∈ anyOf cs := ⟨c, h, rfl⟩

theorem mem_noneOf {c : Char} {cs : List Char} (h : c ∉ cs) : [c] ∈ noneOf cs := ⟨c, h, rfl⟩

theorem mem_between {c first last : Char} (h : first ≤ c ∧ c ≤ last) : [c] ∈ between first last :=
  ⟨c, rfl, h⟩

theorem cons_mem_mul {L M : Language Char} {c : Char} {l : List Char} (hc : [c] ∈ L) (hl : l ∈ M) :
    c :: l ∈ L * M :=
  Language.append_mem_mul hc hl

theorem nil_mem_optional (L : Language Char) : [] ∈ optional L := Or.inl rfl

theorem mem_optional {L : Language Char} {l : List Char} (h : l ∈ L) : l ∈ optional L := Or.inr h

/-- A run of characters that each make up a word. -/
theorem mem_kstar_of_forall {L : Language Char} {l : List Char} (h : ∀ c ∈ l, [c] ∈ L) :
    l ∈ L∗ := by
  refine Language.mem_kstar.mpr ⟨l.map ([·]), ?_, ?_⟩
  · rw [← List.flatMap_def, List.flatMap_singleton']
  · rintro _ hy
    obtain ⟨c, hc, rfl⟩ := List.mem_map.mp hy
    exact h c hc

theorem takeWhile_mem_kstar {L : Language Char} {p : Char → Bool} (h : ∀ c, p c → [c] ∈ L)
    (cs : List Char) : cs.takeWhile p ∈ L∗ :=
  mem_kstar_of_forall fun c hc => h c (List.mem_takeWhile_imp hc)

theorem mem_many_of_forall {L : Language Char} {l : List Char} (hne : l ≠ [])
    (h : ∀ c ∈ l, [c] ∈ L) : l ∈ many L := by
  obtain ⟨c, cs, rfl⟩ := List.exists_cons_of_ne_nil hne
  rw [List.forall_mem_cons] at h
  exact cons_mem_mul h.1 (mem_kstar_of_forall h.2)

theorem takeWhile_mem_many {L : Language Char} {p : Char → Bool} (h : ∀ c, p c → [c] ∈ L)
    {cs : List Char} (hne : cs.takeWhile p ≠ []) : cs.takeWhile p ∈ many L :=
  mem_many_of_forall hne fun c hc => h c (List.mem_takeWhile_imp hc)

/-- One more word in front of a run of words. -/
theorem append_mem_kstar {L : Language Char} {l m : List Char} (hl : l ∈ L) (hm : m ∈ L∗) :
    l ++ m ∈ L∗ :=
  Set.mem_of_mem_of_subset (Language.append_mem_mul hl hm) (mul_kstar_le_kstar (a := L))

theorem nil_notMem_mul {L : Language Char} (h : [] ∉ L) (M : Language Char) : [] ∉ L * M := by
  intro hmem
  obtain ⟨first, hfirst, second, -, heq⟩ := Language.mem_mul.mp hmem
  obtain ⟨rfl, -⟩ := List.append_eq_nil_iff.mp heq
  exact h hfirst

theorem nil_notMem_add {L M : Language Char} (hL : [] ∉ L) (hM : [] ∉ M) : [] ∉ L + M :=
  fun h => h.elim hL hM

theorem nil_notMem_word {w : List Char} (h : w ≠ []) : [] ∉ word w := fun hmem => h hmem.symm

theorem nil_notMem_between (first last : Char) : [] ∉ between first last :=
  fun ⟨_, h, _⟩ => List.cons_ne_nil _ _ h.symm

/-! ## Characters of the readers -/

theorem mem_digits {c : Char} (h : c.isDigit) : [c] ∈ digits := by
  simp only [Char.isDigit, Bool.and_eq_true, decide_eq_true_eq] at h
  exact mem_between h

theorem mem_letters {c : Char} (h : c.isAlpha) : [c] ∈ letters := by
  simp only [Char.isAlpha, Char.isUpper, Char.isLower, Bool.or_eq_true, Bool.and_eq_true,
    decide_eq_true_eq] at h
  exact h.imp mem_between mem_between

theorem mem_names_start {c : Char} (h : isNameStart c) : [c] ∈ letters + word ['_'] := by
  simp only [isNameStart, decide_eq_true_eq] at h
  rcases h with h | rfl
  · exact Or.inl (mem_letters h)
  · exact Or.inr (mem_word_self _)

theorem mem_names_part {c : Char} (h : isNamePart c) : [c] ∈ letters + digits + word ['_'] := by
  simp only [isNamePart, Char.isAlphanum, Bool.or_eq_true, decide_eq_true_eq] at h
  rcases h with (h | h) | rfl
  · exact Or.inl (Or.inl (mem_letters h))
  · exact Or.inl (Or.inr (mem_digits h))
  · exact Or.inr (mem_word_self _)

theorem mem_hexDigits {c : Char} (h : Numeral.isDigit 16 c) : [c] ∈ hexDigits := by
  simp only [Numeral.isDigit, Numeral.digit?, Numeral.hexDigit?] at h
  split at h
  · next hc => exact Or.inl (Or.inl (mem_between hc))
  · split at h
    · next hc => exact Or.inr (mem_between hc)
    · split at h
      · next hc => exact Or.inl (Or.inr (mem_between hc))
      · cases h

/-- An octal digit is a character between zero and seven. -/
theorem mem_octalDigits {c : Char} (h : Numeral.isDigit 8 c) : [c] ∈ between '0' '7' := by
  simp only [Numeral.isDigit, Numeral.digit?, Numeral.hexDigit?] at h
  have hzero : '0'.toNat = 48 := rfl
  refine mem_between ?_
  split at h
  · next hc =>
    simp only [Option.isSome_filter, Option.any_some, decide_eq_true_eq] at h
    refine ⟨hc.1, ?_⟩
    have : c.toNat ≤ 55 := by omega
    exact this
  · split at h
    · simp only [Option.isSome_filter, Option.any_some, decide_eq_true_eq] at h
      omega
    · split at h
      · simp only [Option.isSome_filter, Option.any_some, decide_eq_true_eq] at h
        omega
      · cases h

/-! ## The readers -/

theorem mem_names_of_name? {cs l : List Char} (h : name? cs = some l) : l ∈ names := by
  unfold name? at h
  split at h
  · split at h
    · next hc =>
      cases h
      exact cons_mem_mul (mem_names_start hc) (takeWhile_mem_kstar (fun _ => mem_names_part) _)
    · cases h
  · cases h

theorem mem_integers_of_int? {cs l : List Char} (h : int? cs = some l) : l ∈ integers := by
  unfold int? at h
  split at h
  · next x cs =>
    simp only at h
    split at h
    · next hx =>
      cases h
      have hmarker : [x] ∈ anyOf ['x', 'X'] := mem_anyOf (by simpa using hx.1)
      have hdigits := takeWhile_mem_many (fun _ => mem_hexDigits) hx.2
      exact Or.inl (Or.inl (Language.append_mem_mul (a := ['0', x])
        (cons_mem_mul (mem_word_self _) hmarker) hdigits))
    · cases h
      exact Or.inr (cons_mem_mul (mem_word_self _)
        (takeWhile_mem_kstar (fun _ => mem_octalDigits) _))
  · next c cs hzero =>
    split at h
    · next hc =>
      cases h
      by_cases h0 : c = '0'
      · -- a zero alone: the case before needs another character
        obtain rfl : cs = [] := by
          cases cs with
          | nil => rfl
          | cons x cs => exact absurd rfl (hzero x cs h0)
        subst h0
        exact Or.inr (cons_mem_mul (mem_word_self _) (Language.nil_mem_kstar _))
      · have hfirst : '1' ≤ c ∧ c ≤ '9' := by
          simp only [Char.isDigit, Bool.and_eq_true, decide_eq_true_eq] at hc
          refine ⟨?_, hc.2⟩
          have hne : c.val ≠ 48 := fun h => h0 (Char.ext h)
          exact UInt32.lt_iff_le_and_ne.mpr ⟨hc.1, hne.symm⟩
        exact Or.inl (Or.inr (cons_mem_mul (mem_between hfirst)
          (takeWhile_mem_kstar (fun _ => mem_digits) _)))
    · cases h
  · cases h

/-! ## Numbers with a point or an exponent -/

theorem mem_of_signedDigits? {cs l : List Char} (h : signedDigits? cs = some l) :
    l ∈ optional (anyOf ['+', '-']) * many digits := by
  unfold signedDigits? at h
  split at h
  · split at h
    · next hs =>
      simp only at h
      split at h
      · cases h
      · next hne =>
        cases h
        exact cons_mem_mul (mem_optional (mem_anyOf (by simpa using hs)))
          (takeWhile_mem_many (fun _ => mem_digits) hne)
    · simp only at h
      split at h
      · cases h
      · next hne =>
        cases h
        exact Language.append_mem_mul (nil_mem_optional _)
          (takeWhile_mem_many (fun _ => mem_digits) hne)
  · cases h

theorem mem_exponents_of_exponent? {cs l : List Char} (h : exponent? cs = some l) :
    l ∈ exponents := by
  unfold exponent? at h
  split at h
  · split at h
    · next c rest he =>
      obtain ⟨d, hd, rfl⟩ := Option.map_eq_some_iff.mp h
      have hletter : [c] ∈ anyOf ['e', 'E'] := mem_anyOf (by simpa using he)
      rw [exponents, mul_assoc]
      exact cons_mem_mul hletter (mem_of_signedDigits? hd)
    · cases h
  · cases h

theorem getD_exponent?_mem (cs : List Char) : (exponent? cs).getD [] ∈ optional exponents := by
  cases h : exponent? cs with
  | none => exact nil_mem_optional _
  | some l => exact mem_optional (mem_exponents_of_exponent? h)

/-- Digits and what follows them make up a number. -/
theorem append_mem_floats {before cs l : List Char} (hbefore : ∀ c ∈ before, c.isDigit)
    (h : fraction? (before ≠ []) cs = some l) : before ++ l ∈ floats := by
  have hdigits : ∀ c ∈ before, [c] ∈ digits := fun c hc => mem_digits (hbefore c hc)
  unfold fraction? at h
  split at h
  · simp only at h
    split at h
    · next tail hpoint =>
      cases h
      have hexponent := getD_exponent?_mem (tail.drop (tail.takeWhile Char.isDigit).length)
      rw [← List.cons_append, ← List.append_assoc]
      refine Or.inl (Language.append_mem_mul ?_ hexponent)
      by_cases hnil : before = []
      · -- digits behind the point then
        subst hnil
        refine Or.inr (cons_mem_mul (mem_word_self _) (takeWhile_mem_many (fun _ => mem_digits) ?_))
        simpa using hpoint
      · have hbehind := cons_mem_mul (mem_word_self ['.'])
          (takeWhile_mem_kstar (fun _ => mem_digits) tail)
        refine Or.inl ?_
        rw [mul_assoc]
        exact Language.append_mem_mul (mem_many_of_forall hnil hdigits) hbehind
    · cases h
  · split at h
    · next hne =>
      exact Or.inr (Language.append_mem_mul
        (mem_many_of_forall (by simpa using hne) hdigits) (mem_exponents_of_exponent? h))
    · cases h

theorem mem_floats_of_float? {cs l : List Char} (h : float? cs = some l) : l ∈ floats := by
  unfold float? at h
  simp only at h
  split at h
  · cases h
  · next hf =>
    cases h
    exact append_mem_floats (fun _ => List.mem_takeWhile_imp) hf
  · cases h

/-! ## Strings, comments and blanks -/

theorem mem_of_stringRest? {delimiter : Char} {cs l : List Char}
    (h : stringRest? delimiter cs = some l) :
    l ∈ (noneOf [delimiter, '\\', '\n'] + word ['\\'] * noneOf ['\n'])∗ * word [delimiter] := by
  fun_induction stringRest? delimiter cs generalizing l with
  | case1 => cases h
  | case2 => cases h
  | case3 c cs hc ih =>
    obtain ⟨m, hm, rfl⟩ := Option.map_eq_some_iff.mp h
    obtain ⟨body, hbody, close, hclose, rfl⟩ := Language.mem_mul.mp (ih hm)
    have hescaped : ['\\', c] ∈ word ['\\'] * noneOf ['\n'] :=
      cons_mem_mul (mem_word_self _) (mem_noneOf (by simpa using hc))
    exact Language.append_mem_mul (append_mem_kstar (Or.inr hescaped) hbody) hclose
  | case4 => cases h; exact Language.append_mem_mul (Language.nil_mem_kstar _) (mem_word_self _)
  | case5 => cases h
  | case6 c cs _ hdelimiter hplain ih =>
    obtain ⟨m, hm, rfl⟩ := Option.map_eq_some_iff.mp h
    obtain ⟨body, hbody, close, hclose, rfl⟩ := Language.mem_mul.mp (ih hm)
    have hother : [c] ∈ noneOf [delimiter, '\\', '\n'] := mem_noneOf (by
      rw [not_or] at hplain
      simp [hdelimiter, hplain])
    exact Language.append_mem_mul (append_mem_kstar (Or.inl hother) hbody) hclose

theorem cons_mem_quoted {delimiter : Char} {l : List Char}
    (h : l ∈ (noneOf [delimiter, '\\', '\n'] + word ['\\'] * noneOf ['\n'])∗ * word [delimiter]) :
    delimiter :: l ∈ quoted delimiter := by
  rw [quoted, mul_assoc]
  exact cons_mem_mul (mem_word_self _) h

theorem mem_strings_of_string? {cs l : List Char} (h : string? cs = some l) : l ∈ strings := by
  unfold string? at h
  split at h
  · split at h
    · next hquote =>
      obtain ⟨m, hm, rfl⟩ := Option.map_eq_some_iff.mp h
      have hrest := mem_of_stringRest? hm
      rcases hquote with rfl | rfl
      · exact Or.inl (cons_mem_quoted hrest)
      · exact Or.inr (cons_mem_quoted hrest)
    · cases h
  · cases h

/-- A character in front of an unclosed text leaves it unclosed, unless the two make up the mark. -/
theorem cons_mem_unclosed {c : Char} {body : List Char} (hbody : body ∈ unclosed)
    (h : c = '*' → body.head? ≠ some '/') : c :: body ∈ unclosed := by
  intro hinfix
  rcases List.infix_cons_iff.mp hinfix with hprefix | hinside
  · obtain ⟨rfl, hslash⟩ := List.cons_prefix_cons.mp hprefix
    obtain ⟨rest, rfl⟩ := hslash
    exact h rfl rfl
  · exact hbody hinside

theorem mem_of_blockRest? {cs l : List Char} (h : blockRest? cs = some l) :
    l ∈ unclosed * word ['*', '/'] := by
  fun_induction blockRest? cs generalizing l with
  | case1 => cases h
  | case2 =>
    cases h
    have hnil : [] ∈ unclosed := fun hinfix => by simp at hinfix
    exact Language.append_mem_mul hnil (mem_word_self _)
  | case3 c cs hopen ih =>
    obtain ⟨m, hm, rfl⟩ := Option.map_eq_some_iff.mp h
    obtain ⟨body, hbody, close, rfl, rfl⟩ := Language.mem_mul.mp (ih hm)
    refine Language.append_mem_mul (a := c :: body) (cons_mem_unclosed hbody ?_) (mem_word_self _)
    -- behind a star no slash follows, for the comment would have ended there
    rintro rfl hslash
    obtain ⟨rest, rfl⟩ := List.head?_eq_some_iff.mp hslash
    obtain ⟨behind, rfl⟩ := isPrefix_of_blockRest? hm
    exact hopen _ rfl rfl

theorem mem_gaps_of_blank? {cs l : List Char} (h : blank? cs = some l) :
    l ∈ blanks + lineComments + blockComments := by
  unfold blank? at h
  split at h
  · cases h
    have hrest : ∀ c : Char, decide (c ≠ '\n') → [c] ∈ noneOf ['\n'] := fun c hc =>
      mem_noneOf (by simpa using hc)
    exact Or.inl (Or.inr (Language.append_mem_mul (a := ['/', '/']) (mem_word_self _)
      (takeWhile_mem_kstar hrest _)))
  · obtain ⟨m, hm, rfl⟩ := Option.map_eq_some_iff.mp h
    refine Or.inr ?_
    rw [blockComments, mul_assoc]
    exact Language.append_mem_mul (a := ['/', '*']) (mem_word_self _) (mem_of_blockRest? hm)
  · split at h
    · next hc =>
      cases h
      have hblank : ∀ c, isBlank c → [c] ∈ anyOf [' ', '\t', '\x0c', '\r', '\n'] := fun c hc =>
        mem_anyOf (by simpa [isBlank] using hc)
      exact Or.inl (Or.inl (cons_mem_mul (hblank _ hc) (takeWhile_mem_kstar hblank _)))
    · cases h
  · cases h

end Lexeme

/-- No terminal has an empty lexeme. -/
theorem Terminal.nil_notMem_language (t : Terminal) : [] ∉ t.language := by
  have hword (c : Char) : [] ∉ Lexeme.word [c] := Lexeme.nil_notMem_word (List.cons_ne_nil _ _)
  have hletters : [] ∉ Lexeme.letters :=
    Lexeme.nil_notMem_add (Lexeme.nil_notMem_between _ _) (Lexeme.nil_notMem_between _ _)
  have hdigits : [] ∉ Lexeme.many Lexeme.digits :=
    Lexeme.nil_notMem_mul (Lexeme.nil_notMem_between _ _) _
  have hquoted (d : Char) : [] ∉ Lexeme.quoted d :=
    Lexeme.nil_notMem_mul (Lexeme.nil_notMem_mul (hword d) _) _
  cases t with
  | name => exact Lexeme.nil_notMem_mul (Lexeme.nil_notMem_add hletters (hword _)) _
  | int =>
    refine Lexeme.nil_notMem_add (Lexeme.nil_notMem_add ?_ ?_) ?_
    · exact Lexeme.nil_notMem_mul (Lexeme.nil_notMem_mul (hword _) _) _
    · exact Lexeme.nil_notMem_mul (Lexeme.nil_notMem_between _ _) _
    · exact Lexeme.nil_notMem_mul (hword _) _
  | float =>
    refine Lexeme.nil_notMem_add (Lexeme.nil_notMem_mul (Lexeme.nil_notMem_add ?_ ?_) _) ?_
    · exact Lexeme.nil_notMem_mul (Lexeme.nil_notMem_mul hdigits _) _
    · exact Lexeme.nil_notMem_mul (hword _) _
    · exact Lexeme.nil_notMem_mul hdigits _
  | string => exact Lexeme.nil_notMem_add (hquoted _) (hquoted _)
  | keyword k => exact Lexeme.nil_notMem_word (by cases k <;> decide)
  | mark m => exact hword _

/-! ## The lexer -/

namespace Lexer

theorem mem_language_of_ofClass? {accept : Terminal → Bool} {t : Terminal}
    {read : List Char → Option (List Char)} {cs : List Char} {l : Lexed}
    (hread : ∀ {l}, read cs = some l → l ∈ t.language)
    (h : ofClass? accept t read cs = some l) : l.2 ∈ l.1.language := by
  unfold ofClass? at h
  split at h
  · obtain ⟨m, hm, rfl⟩ := Option.map_eq_some_iff.mp h
    exact hread hm
  · cases h

theorem mem_language_of_word? {accept : Terminal → Bool} {cs : List Char} {l : Lexed}
    (h : word? accept cs = some l) : l.2 ∈ l.1.language := by
  obtain ⟨m, hm, rfl⟩ := Option.map_eq_some_iff.mp h
  have hname := Lexeme.mem_names_of_name? hm
  split
  · next k hk =>
    split
    · have hspelling : k.spelling.toList = m := by simpa using List.find?_some hk
      exact hspelling ▸ Lexeme.mem_word_self _
    · exact hname
  · exact hname

theorem mem_language_of_keyword? {accept : Terminal → Bool} {cs : List Char} {l : Lexed}
    (h : keyword? accept cs = some l) : l.2 ∈ l.1.language := by
  obtain ⟨k, -, rfl⟩ := Option.map_eq_some_iff.mp h
  exact Lexeme.mem_word_self _

theorem mem_language_of_mark? {accept : Terminal → Bool} {cs : List Char} {l : Lexed}
    (h : mark? accept cs = some l) : l.2 ∈ l.1.language := by
  unfold mark? at h
  split at h
  · obtain ⟨m, hm, rfl⟩ := Option.map_eq_some_iff.mp h
    have hcharacter := List.find?_some hm
    simp only [Bool.and_eq_true, beq_iff_eq] at hcharacter
    exact hcharacter.2 ▸ Lexeme.mem_word_self _
  · cases h

/-- A lexeme that is read belongs to its terminal. -/
theorem mem_language_of_lexed? {accept : Terminal → Bool} {cs : List Char} {l : Lexed}
    (h : lexed? accept cs = some l) : l.2 ∈ l.1.language := by
  simp only [lexed?, Option.orElse_eq_orElse, Option.orElse_eq_or, Option.or_eq_some_iff] at h
  rcases h with h | ⟨-, h | ⟨-, h | ⟨-, h | ⟨-, h⟩⟩⟩⟩
  · exact mem_language_of_ofClass? Lexeme.mem_floats_of_float? h
  · exact mem_language_of_ofClass? Lexeme.mem_integers_of_int? h
  · exact mem_language_of_ofClass? Lexeme.mem_strings_of_string? h
  · split at h
    · exact mem_language_of_word? h
    · exact mem_language_of_keyword? h
  · exact mem_language_of_mark? h

end Lexer

/-! ## Layouts -/

/-- A text that starts at a place holds these tokens and nothing else but gaps. -/
inductive Layout : Position → List Char → List Token → Prop
  | nil {p : Position} {gap : List Char} (hgap : gap ∈ Lexeme.gaps) : Layout p gap []
  | cons {p : Position} {gap rest : List Char} {t : Token} {ts : List Token}
      (hgap : gap ∈ Lexeme.gaps) (hplace : t.position = p.advance gap)
      (hlexeme : t.lexeme ∈ t.terminal.language)
      (hrest : Layout (t.position.advance t.lexeme) rest ts) :
      Layout p (gap ++ t.lexeme ++ rest) (t :: ts)

namespace Layout

/-- Every token has a lexeme of its terminal. -/
theorem mem_language {p : Position} {text : List Char} {tokens : List Token}
    (h : Layout p text tokens) : ∀ t ∈ tokens, t.lexeme ∈ t.terminal.language := by
  induction h with
  | nil => simp
  | cons _ _ hlexeme _ ih => exact List.forall_mem_cons.mpr ⟨hlexeme, ih⟩

theorem lexeme_ne_nil {p : Position} {text : List Char} {tokens : List Token}
    (h : Layout p text tokens) : ∀ t ∈ tokens, t.lexeme ≠ [] :=
  fun t ht hnil => t.terminal.nil_notMem_language (hnil ▸ h.mem_language t ht)

end Layout

namespace Position

theorem advance_append (p : Position) (l m : List Char) :
    p.advance (l ++ m) = (p.advance l).advance m :=
  List.foldl_append

end Position

namespace Cursor

/-- What is skipped is a gap. -/
theorem exists_gap_skipBlanks (c : Cursor) :
    ∃ gap ∈ Lexeme.gaps, c.rest = gap ++ c.skipBlanks.rest ∧
      c.skipBlanks.position = c.position.advance gap := by
  fun_induction skipBlanks c with
  | case1 c lexeme h _ ih =>
    obtain ⟨gap, hgap, hrest, hplace⟩ := ih
    obtain ⟨tail, htail⟩ := (Lexeme.blank?_opens h).1
    have hafter : (c.after lexeme).rest = tail := by
      rw [after, ← htail, List.drop_left]
    refine ⟨lexeme ++ gap, Lexeme.append_mem_kstar (Lexeme.mem_gaps_of_blank? h) hgap, ?_, ?_⟩
    · rw [List.append_assoc, ← hrest, hafter, htail]
    · rw [hplace, Position.advance_append]
      rfl
  | case2 c =>
    exact ⟨[], Language.nil_mem_kstar _, rfl, rfl⟩

end Cursor

namespace Lexer

variable {accept : Terminal → Bool} {c : Cursor}

/-- A token lies behind a gap, and what follows it is left. -/
theorem layout_of_next_token {t : Token} {behind : Cursor} {ts : List Token}
    (h : next accept c = .token t behind) (hrest : Layout behind.position behind.rest ts) :
    Layout c.position c.rest (t :: ts) := by
  obtain ⟨gap, hgap, hskipped, hplace⟩ := c.exists_gap_skipBlanks
  unfold next at h
  simp only at h
  split at h
  · cases h
  · split at h
    · next lexeme hlexed =>
      cases h
      obtain ⟨tail, htail⟩ := (lexed?_opens hlexed).1
      have hsplit : c.rest = gap ++ lexeme ++ tail := by
        rw [hskipped, ← htail, List.append_assoc]
      rw [hsplit]
      have hlexeme := mem_language_of_lexed? hlexed
      rw [Cursor.after, ← htail, List.drop_left] at hrest
      exact .cons (t := ⟨_, lexeme, _⟩) hgap hplace hlexeme hrest
    · cases h

/-- A text that is read to its end without a token is a gap. -/
theorem layout_of_next_finished {last : Cursor} (h : next accept c = .finished last) :
    Layout c.position c.rest [] := by
  obtain ⟨gap, hgap, hskipped, -⟩ := c.exists_gap_skipBlanks
  unfold next at h
  simp only at h
  split at h
  · next hend =>
    rw [hskipped, hend, List.append_nil]
    exact .nil hgap
  · split at h <;> cases h

end Lexer

end ProtoSchema
