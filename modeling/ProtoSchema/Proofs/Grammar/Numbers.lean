import ProtoSchema.Proofs.Decimal.Written
import ProtoSchema.Proofs.Grammar.Derivation

/-!
# Integers in declarations

A natural number is spelled in decimal, in hexadecimal behind a marker, or in octal behind a zero; in
the last two with zeros in front, and in hexadecimal with letters of either case (`Numeral.SpellingOf`).
What is read as an integer are these spellings and nothing else (`Numeral.int?_eq_some_iff`), and the
value of a spelling is the number (`Numeral.SpellingOf.parseInt`).

Where the grammar asks for an integer it stands for the number that its numeral spells, multiplied
with minus one where a minus sign stands in front of the numeral, and with one otherwise. This is so
for integers with a sign, for field numbers, and for the numbers among the values of options.
-/

namespace ProtoSchema.Numeral

/-! ## Spellings -/

/-- How a natural number may be written as an integer. -/
inductive SpellingOf (n : Nat) : List Char → Prop
  | decimal : SpellingOf n (Nat.toDigits 10 n)
  | hex {mark : Char} {ds : List Char} (zeros : Nat) (hmark : mark = 'x' ∨ mark = 'X')
    (hds : ds.map Char.toLower = List.replicate zeros '0' ++ Nat.toDigits 16 n) :
    SpellingOf n ('0' :: mark :: ds)
  | octal (zeros : Nat) : SpellingOf n ('0' :: (List.replicate zeros '0' ++ Nat.toDigits 8 n))

theorem isDigit_of_mem_replicate_append {base n : Nat} (hone : 1 < base) (hbase : base ≤ 16)
    {zeros : Nat} {c : Char} (h : c ∈ List.replicate zeros '0' ++ Nat.toDigits base n) :
    isDigit base c = true := by
  rcases List.mem_append.mp h with h | h
  · obtain rfl := (List.mem_replicate.mp h).2
    have hzero : '0' ∈ Nat.toDigits base 0 := by rw [Nat.toDigits_zero]; exact List.mem_singleton_self _
    exact isDigit_of_mem_toDigits hone hbase hzero
  · exact isDigit_of_mem_toDigits hone hbase h

namespace SpellingOf

variable {n : Nat} {l : List Char}

/-- The digits behind the marker. -/
theorem isDigit_of_hex {ds : List Char} {zeros : Nat}
    (hds : ds.map Char.toLower = List.replicate zeros '0' ++ Nat.toDigits 16 n) :
    ∀ c ∈ ds, isDigit 16 c = true := by
  intro c hc
  have hlower : c.toLower ∈ List.replicate zeros '0' ++ Nat.toDigits 16 n :=
    hds ▸ List.mem_map_of_mem hc
  rw [← isDigit_toLower]
  exact isDigit_of_mem_replicate_append (by decide) (by decide) hlower

theorem ne_nil_of_hex {ds : List Char} {zeros : Nat}
    (hds : ds.map Char.toLower = List.replicate zeros '0' ++ Nat.toDigits 16 n) : ds ≠ [] := by
  rintro rfl
  have hnil := (List.append_eq_nil_iff.mp hds.symm).2
  exact Nat.toDigits_ne_nil hnil

/-- The value of a spelling is the number that it spells. -/
theorem parseInt (h : SpellingOf n l) : parseInt l = .ok (n : Int) := by
  cases h with
  | decimal => exact parseInt_toDigits n
  | @hex mark ds zeros hmark hds =>
    rw [parseInt_of_hexDigits hmark (ne_nil_of_hex hds) (isDigit_of_hex hds), ← value_map_toLower,
      hds, value_replicate_append, value_toDigits (by decide) (by decide)]
  | octal zeros =>
    rw [parseInt_of_octalDigits fun c hc => isDigit_of_mem_replicate_append (by decide) (by decide) hc,
      value_replicate_append, value_toDigits (by decide) (by decide)]

/-- A spelling is a lexeme of integers. -/
theorem mem_integers (h : SpellingOf n l) : l ∈ Lexeme.integers := by
  cases h with
  | decimal => exact toDigits_mem_integers n
  | @hex mark ds zeros hmark hds =>
    refine .inl (.inl ?_)
    have hmarker : [mark] ∈ Lexeme.anyOf ['x', 'X'] := Lexeme.mem_anyOf (by simpa using hmark)
    have hdigits : ds ∈ Lexeme.many Lexeme.hexDigits :=
      Lexeme.mem_many_of_forall (ne_nil_of_hex hds) fun c hc =>
        Lexeme.mem_hexDigits (isDigit_of_hex hds c hc)
    rw [mul_assoc]
    exact Lexeme.cons_mem_mul (Lexeme.mem_word_self _) (Lexeme.cons_mem_mul hmarker hdigits)
  | octal zeros =>
    refine .inr (Lexeme.cons_mem_mul (Lexeme.mem_word_self _) (Lexeme.mem_kstar_of_forall ?_))
    intro c hc
    exact Lexeme.mem_octalDigits (isDigit_of_mem_replicate_append (by decide) (by decide) hc)

end SpellingOf

/-- Every lexeme of integers is a spelling. -/
theorem exists_spelling {l : List Char} (h : l ∈ Lexeme.integers) : ∃ n, SpellingOf n l := by
  rcases Lexeme.exists_of_mem_integers h with
    ⟨x, ds, rfl, hx, hne, hds⟩ | ⟨c, ds, rfl, hfirst, hlast, hds⟩ | ⟨ds, rfl, hds⟩
  · obtain ⟨zeros, hzeros⟩ := exists_toDigits_of_digits (by decide) hne hds
    exact ⟨_, .hex zeros hx hzeros⟩
  · have hdigits : ∀ d ∈ c :: ds, d.isDigit = true := by
      refine List.forall_mem_cons.mpr ⟨?_, hds⟩
      simp only [Char.isDigit, Bool.and_eq_true, decide_eq_true_eq]
      exact ⟨Char.le_trans (by decide) hfirst, hlast⟩
    have hall : ∀ d ∈ c :: ds, isDigit 10 d = true := fun d hd => isDigit_of_decimal (hdigits d hd)
    obtain ⟨zeros, hzeros⟩ := exists_toDigits_of_digits (by decide) (List.cons_ne_nil c ds) hall
    rw [map_toLower_of_digits (by decide) hall] at hzeros
    cases zeros with
    | zero =>
      rw [hzeros]
      exact ⟨_, .decimal⟩
    | succ zeros =>
      -- no zero in front of the first digit
      obtain rfl := (List.cons.inj hzeros).1
      exact absurd hfirst (by decide)
  · cases ds with
    | nil => exact ⟨0, .decimal⟩
    | cons d ds =>
      obtain ⟨zeros, hzeros⟩ := exists_toDigits_of_digits (by decide) (List.cons_ne_nil d ds) hds
      rw [map_toLower_of_digits (by decide) hds] at hzeros
      rw [hzeros]
      exact ⟨_, .octal zeros⟩

/-- A text is read whole as an integer just if it is a spelling. -/
theorem int?_eq_some_iff {l : List Char} : Lexeme.int? l = some l ↔ ∃ n, SpellingOf n l := by
  constructor
  · exact fun h => exists_spelling (Lexeme.mem_integers_of_int? h)
  · rintro ⟨n, h⟩
    have hread : Lexeme.int? (l ++ []) = some l :=
      Lexeme.int?_append h.mem_integers (by simp [Lexeme.Apart])
    rwa [List.append_nil] at hread

end ProtoSchema.Numeral

namespace ProtoSchema

open Numeral

/-- What a numeral is multiplied with for the tokens in front of it. -/
def Sign.factor (front : List Token) : Int :=
  if front.map Token.terminal = [.mark .minus] then -1 else 1

theorem Sign.factor_nil : factor [] = 1 := if_neg nofun

theorem Sign.factor_minus {s : Token} (h : s.terminal = .mark .minus) : factor [s] = -1 := by
  rw [factor, List.map_singleton, h, if_pos rfl]

theorem Sign.factor_plus {s : Token} (h : s.terminal = .mark .plus) : factor [s] = 1 := by
  rw [factor, List.map_singleton, h, if_neg (by decide)]

theorem Token.intValue_of_spelling {t : Token} {n : Nat} (h : SpellingOf n t.lexeme) :
    t.intValue = .ok (n : Int) := by
  rw [intValue, h.parseInt]
  rfl

namespace Tree

/-- The last of some tokens is an integer with one of some signs in front of it, or none; what it
stands for is made from its value, multiplied with the factor of the sign. -/
def Integral {α : Type} (tokens : List Token) (signs : List Terminal) (value : Except Fault α)
    (make : Token → Int → α) : Prop :=
  ∃ front t, tokens = front ++ [t] ∧ t.terminal = .int ∧
    (front = [] ∨ ∃ s, front = [s] ∧ s.terminal ∈ signs) ∧
    ∀ n : Nat, t.intValue = .ok (n : Int) → value = .ok (make t (Sign.factor front * n))

theorem integral_signedInt (tree : Tree (.part .signedInt)) :
    Integral tree.tokens [.mark .minus] tree.value fun _ i => i := by
  obtain ⟨i, children, htokens, hvalue, -⟩ := tree.exists_rule
  match i, children, htokens, hvalue with
  | ⟨0, _⟩, .cons mark (.cons digits .nil), htokens, hvalue =>
    obtain ⟨s, hs, hstokens, hsfeed⟩ := Forest.feed_token mark (.cons digits .nil)
    obtain ⟨t, ht, httokens, htfeed⟩ := Forest.feed_last digits
    refine ⟨[s], t, htokens.trans ?_, ht, .inr ⟨s, rfl, by simp [hs]⟩, fun n hn => hvalue.trans ?_⟩
    · exact hstokens.trans (congrArg (s :: ·) httokens)
    · refine (hsfeed _).trans ((htfeed _).trans ?_)
      show t.intValue.map (- ·) = _
      rw [hn, Sign.factor_minus hs, Int.neg_one_mul]
      rfl
  | ⟨1, _⟩, .cons digits .nil, htokens, hvalue =>
    obtain ⟨t, ht, httokens, htfeed⟩ := Forest.feed_last digits
    refine ⟨[], t, htokens.trans httokens, ht, .inl rfl, fun n hn => ?_⟩
    rw [Sign.factor_nil, Int.one_mul]
    exact hvalue.trans ((htfeed _).trans hn)

theorem integral_fieldNumber (tree : Tree (.part .fieldNumber)) :
    Integral tree.tokens [] tree.value fun _ i => i.toNat := by
  obtain ⟨i, children, htokens, hvalue, -⟩ := tree.exists_rule
  match i, children, htokens, hvalue with
  | ⟨0, _⟩, .cons digits .nil, htokens, hvalue =>
    obtain ⟨t, ht, httokens, htfeed⟩ := Forest.feed_last digits
    refine ⟨[], t, htokens.trans httokens, ht, .inl rfl, fun n hn => hvalue.trans ?_⟩
    refine (htfeed _).trans ?_
    show t.intValue.map Int.toNat = _
    rw [hn, Sign.factor_nil, Int.one_mul]
    rfl

theorem exists_sign (tree : Tree (.part .sign)) :
    ∃ (s : Token) (sign : Sign), tree.tokens = [s] ∧ tree.value = .ok sign ∧
      s.terminal ∈ [.mark .minus, .mark .plus] ∧ ∀ i, sign.apply i = Sign.factor [s] * i := by
  obtain ⟨i, children, htokens, hvalue, -⟩ := tree.exists_rule
  match i, children, htokens, hvalue with
  | ⟨0, _⟩, .cons mark .nil, htokens, hvalue =>
    obtain ⟨s, hs, hstokens, hsfeed⟩ := Forest.feed_last mark
    refine ⟨s, .minus, htokens.trans hstokens, hvalue.trans (hsfeed _), by simp [hs], fun i => ?_⟩
    rw [Sign.factor_minus hs, Int.neg_one_mul]
    rfl
  | ⟨1, _⟩, .cons mark .nil, htokens, hvalue =>
    obtain ⟨s, hs, hstokens, hsfeed⟩ := Forest.feed_last mark
    refine ⟨s, .plus, htokens.trans hstokens, hvalue.trans (hsfeed _), by simp [hs], fun i => ?_⟩
    rw [Sign.factor_plus hs, Int.one_mul]
    rfl

theorem exists_last {s : Symbol} {t : Terminal} (first : Tree s) (last : Tree (.terminal t)) :
    ∃ u : Token, u.terminal = t ∧
      (Forest.cons first (.cons last .nil)).tokens = first.tokens ++ [u] := by
  obtain ⟨u, hu, hutokens, -⟩ := last.exists_token
  refine ⟨u, hu, ?_⟩
  rw [Forest.tokens, Forest.tokens, hutokens, Forest.tokens]
  rfl

theorem Constant.ofInt_of_intValue {sign : Sign} {t : Token} {i : Int} (h : t.intValue = .ok i) :
    Constant.ofInt sign t = .ok ⟨.int (sign.apply i), some t.position⟩ := by
  rw [Constant.ofInt, h]
  rfl

/-- A number is an integer with its sign, or it ends in no integer. -/
theorem integral_number (tree : Tree (.part .number)) :
    Integral tree.tokens [.mark .minus, .mark .plus] tree.value
        (fun t i => (⟨.int i, some t.position⟩ : Constant)) ∨
      ∃ front t, tree.tokens = front ++ [t] ∧ t.terminal ≠ .int := by
  obtain ⟨i, children, htokens, hvalue, -⟩ := tree.exists_rule
  match i, children, htokens, hvalue with
  | ⟨0, _⟩, .cons first (.cons digits .nil), htokens, hvalue =>
    obtain ⟨s, sign, hstokens, hsvalue, hs, happly⟩ := exists_sign first
    obtain ⟨t, ht, httokens, htfeed⟩ := Forest.feed_last digits
    refine .inl ⟨[s], t, htokens.trans ?_, ht, .inr ⟨s, rfl, hs⟩, fun n hn => hvalue.trans ?_⟩
    · show (Forest.cons first (.cons digits .nil)).tokens = _
      rw [Forest.tokens, hstokens, httokens]
    · rw [← happly]
      show (Forest.cons first (.cons digits .nil)).feed Constant.ofInt = _
      rw [Forest.feed, hsvalue]
      exact (htfeed _).trans (Constant.ofInt_of_intValue hn)
  | ⟨1, _⟩, .cons digits .nil, htokens, hvalue =>
    obtain ⟨t, ht, httokens, htfeed⟩ := Forest.feed_last digits
    refine .inl ⟨[], t, htokens.trans httokens, ht, .inl rfl, fun n hn => ?_⟩
    rw [Sign.factor_nil, Int.one_mul]
    exact hvalue.trans ((htfeed _).trans (Constant.ofInt_of_intValue hn))
  | ⟨2, _⟩, .cons first (.cons digits .nil), htokens, _ =>
    obtain ⟨u, hu, hutokens⟩ := exists_last first digits
    exact .inr ⟨first.tokens, u, htokens.trans hutokens, by simp [hu]⟩
  | ⟨3, _⟩, .cons digits .nil, htokens, hvalue =>
    obtain ⟨u, hu, hutokens, -⟩ := Forest.feed_last (β := Constant) digits
    exact .inr ⟨[], u, htokens.trans hutokens, by simp [hu]⟩
  | ⟨4, _⟩, .cons first (.cons word .nil), htokens, _ =>
    obtain ⟨u, hu, hutokens⟩ := exists_last first word
    exact .inr ⟨first.tokens, u, htokens.trans hutokens, by simp [hu]⟩

/-- What ends in an integer token stands for what is made from the number that the token spells. -/
def Spelled {α : Type} (tokens : List Token) (signs : List Terminal) (value : Except Fault α)
    (make : Token → Int → α) : Prop :=
  ∃ front t n, tokens = front ++ [t] ∧ t.terminal = .int ∧
    (front = [] ∨ ∃ s, front = [s] ∧ s.terminal ∈ signs) ∧ SpellingOf n t.lexeme ∧
    value = .ok (make t (Sign.factor front * n))

theorem Integral.spelled {α : Type} {tokens : List Token} {signs : List Terminal}
    {value : Except Fault α} {make : Token → Int → α} (h : Integral tokens signs value make)
    (hlexemes : ∀ t ∈ tokens, t.lexeme ∈ t.terminal.language) :
    Spelled tokens signs value make := by
  obtain ⟨front, t, rfl, ht, hfront, hvalue⟩ := h
  have hlexeme := hlexemes t (by simp)
  rw [ht] at hlexeme
  obtain ⟨n, hn⟩ := exists_spelling hlexeme
  exact ⟨front, t, n, rfl, ht, hfront, hn, hvalue n (Token.intValue_of_spelling hn)⟩

end Tree

/-- Every spelling of a natural number has it as its value, and what is read as an integer is such a
spelling. Whatever derives an integer stands for the number that its last token spells, which the
sign in front of this token is applied to once. -/
theorem integers_denote :
    (∀ (n : Nat) (l : List Char), SpellingOf n l → parseInt l = .ok (n : Int)) ∧
    (∀ l, Lexeme.int? l = some l ↔ ∃ n, SpellingOf n l) ∧
    (∀ text l, Lexeme.int? text = some l → ∃ n, SpellingOf n l ∧ parseInt l = .ok (n : Int)) ∧
    (∀ tree : Tree (.part .signedInt), (∀ t ∈ tree.tokens, t.lexeme ∈ t.terminal.language) →
      Tree.Spelled tree.tokens [.mark .minus] tree.value fun _ i => i) ∧
    (∀ tree : Tree (.part .fieldNumber), (∀ t ∈ tree.tokens, t.lexeme ∈ t.terminal.language) →
      Tree.Spelled tree.tokens [] tree.value fun _ i => i.toNat) ∧
    ∀ tree : Tree (.part .number), (∀ t ∈ tree.tokens, t.lexeme ∈ t.terminal.language) →
      Tree.Spelled tree.tokens [.mark .minus, .mark .plus] tree.value
          (fun t i => ⟨.int i, some t.position⟩) ∨
        ∃ front t, tree.tokens = front ++ [t] ∧ t.terminal ≠ .int := by
  refine ⟨fun n l h => h.parseInt, fun l => int?_eq_some_iff, ?_, ?_, ?_, ?_⟩
  · intro text l h
    obtain ⟨n, hn⟩ := exists_spelling (Lexeme.mem_integers_of_int? h)
    exact ⟨n, hn, hn.parseInt⟩
  · exact fun tree hlexemes => tree.integral_signedInt.spelled hlexemes
  · exact fun tree hlexemes => tree.integral_fieldNumber.spelled hlexemes
  · intro tree hlexemes
    exact tree.integral_number.imp_left fun h => h.spelled hlexemes

namespace Sample

/-- A minus sign and an octal numeral with a zero in front. -/
def negative : Tree (.part .signedInt) :=
  .node ⟨.signedInt, ⟨0, by decide⟩⟩ (.cons (.leaf ⟨.mark .minus, ['-'], .start⟩)
    (.cons (.leaf ⟨.int, ['0', '0', '1', '7'], ⟨1, 3⟩⟩) .nil))

end Sample

theorem integers_denote_samples :
    SpellingOf 175 ['0', 'X', '0', 'a', 'F'] ∧
      parseInt ['0', 'X', '0', 'a', 'F'] = .ok 175 ∧
      parseInt ['0', '0'] = .ok 0 ∧
      Tree.Spelled Sample.negative.tokens [.mark .minus] Sample.negative.value fun _ i => i := by
  have hhex : SpellingOf 175 ['0', 'X', '0', 'a', 'F'] := .hex 1 (.inr rfl) (by decide)
  have hzero : SpellingOf 0 ['0', '0'] := .octal 0
  have hlexemes : ∀ t ∈ Sample.negative.tokens, t.lexeme ∈ t.terminal.language := by
    have htokens : Sample.negative.tokens =
        [⟨.mark .minus, ['-'], .start⟩, ⟨.int, ['0', '0', '1', '7'], ⟨1, 3⟩⟩] := rfl
    rw [htokens, List.forall_mem_cons, List.forall_mem_singleton]
    have hoctal : SpellingOf 15 ['0', '0', '1', '7'] := .octal 1
    exact ⟨rfl, hoctal.mem_integers⟩
  exact ⟨hhex, integers_denote.1 175 _ hhex, integers_denote.1 0 _ hzero,
    integers_denote.2.2.2.1 Sample.negative hlexemes⟩

end ProtoSchema
