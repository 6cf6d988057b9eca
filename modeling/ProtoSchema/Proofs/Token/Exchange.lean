import ProtoSchema.Proofs.Token.Cut

/-!
# Texts that go on differently

How far a lexer looks beyond the lexeme that it finds depends on what stands there. It never looks
beyond a character that belongs to no name, except for the digits of an exponent behind its sign. So
a lexeme in a text that ends with such a character is found whatever the text goes on with, as long
as this opens with no digit (`Lexer.lexed?_exchange`).
-/

namespace ProtoSchema

namespace Lexeme

variable {u v x x' l : List Char}

/-- A text whose last character belongs to no name. -/
def Ended (u : List Char) : Prop := ∃ v c, u = v ++ [c] ∧ isNamePart c = false

theorem Ended.ne_nil (h : Ended u) : u ≠ [] := by
  obtain ⟨v, c, rfl, -⟩ := h
  exact List.append_ne_nil_of_right_ne_nil v (List.cons_ne_nil c [])

theorem Ended.append (h : Ended u) (l : List Char) : Ended (l ++ u) := by
  obtain ⟨v, c, rfl, hc⟩ := h
  exact ⟨l ++ v, c, (List.append_assoc ..).symm, hc⟩

/-- What is left of an ended text is ended. -/
theorem Ended.of_append (h : Ended (l ++ u)) (hu : u ≠ []) : Ended u := by
  obtain ⟨v, c, heq, hc⟩ := h
  obtain ⟨w, d, rfl⟩ := List.eq_nil_or_concat' u |>.resolve_left hu
  rw [← List.append_assoc] at heq
  obtain ⟨-, hd⟩ := List.append_inj' heq rfl
  obtain rfl := List.singleton_injective hd
  exact ⟨w, d, rfl, hc⟩

theorem Ended.of_cons {c : Char} (h : Ended (c :: u)) (hc : isNamePart c = true) : Ended u := by
  by_cases hu : u = []
  · subst hu
    obtain ⟨v, d, heq, hd⟩ := h
    have hlast := congrArg List.getLast? heq
    rw [List.getLast?_concat, List.getLast?_singleton] at hlast
    rw [Option.some.inj hlast] at hc
    cases hc.symm.trans hd
  · exact Ended.of_append (l := [c]) h hu

section

variable {p : Char → Bool}

/-- A run of characters of names ends within an ended text, -/
theorem Ended.dropWhile (h : Ended u) (hp : ∀ c, p c = true → isNamePart c = true) :
    Ended (u.dropWhile p) := by
  have hrest : u.dropWhile p ≠ [] := by
    intro hnil
    obtain ⟨v, c, rfl, hc⟩ := h
    have hall := List.dropWhile_eq_nil_iff.mp hnil c (by simp)
    cases (hp c hall).symm.trans hc
  have hsplit : u.takeWhile p ++ u.dropWhile p = u := List.takeWhile_append_dropWhile
  exact Ended.of_append (hsplit.symm ▸ h) hrest

/-- and what the text goes on with does not matter to it. -/
theorem Ended.takeWhile_append (h : Ended u) (hp : ∀ c, p c = true → isNamePart c = true)
    (x : List Char) : (u ++ x).takeWhile p = u.takeWhile p := by
  have hends : ∀ c ∈ (u.dropWhile p ++ x).head?, p c = false := by
    intro c hc
    have hnot := List.head?_dropWhile_not p u
    obtain ⟨d, ds, heq⟩ := List.exists_cons_of_ne_nil (h.dropWhile hp).ne_nil
    rw [heq] at hc hnot
    obtain rfl := Option.some.inj hc
    exact hnot
  have hsplit : u ++ x = u.takeWhile p ++ (u.dropWhile p ++ x) := by
    rw [← List.append_assoc, List.takeWhile_append_dropWhile]
  rw [hsplit]
  exact Lexeme.takeWhile_append (fun c hc => List.mem_takeWhile_imp hc) hends

theorem drop_takeWhile_append (p : Char → Bool) (u x : List Char) :
    (u ++ x).drop (u.takeWhile p).length = u.dropWhile p ++ x := by
  have hsplit : u ++ x = u.takeWhile p ++ (u.dropWhile p ++ x) := by
    rw [← List.append_assoc, List.takeWhile_append_dropWhile]
  rw [hsplit, List.drop_left]

end

theorem isNamePart_of_base {base : Nat} (hbase : base ≤ 16) {c : Char}
    (h : Numeral.isDigit base c = true) : isNamePart c = true := by
  have hhex : Numeral.isDigit 16 c = true := by
    simp only [Numeral.isDigit, Numeral.digit?, Option.isSome_filter, Option.any_eq_true,
      decide_eq_true_eq] at h ⊢
    obtain ⟨n, hn, hlt⟩ := h
    exact ⟨n, hn, hlt.trans_le hbase⟩
  obtain ⟨_, heq, hpart⟩ := oneOf_hexParts _ (mem_hexDigits hhex)
  exact List.singleton_injective heq ▸ hpart

theorem exists_start_of_name? (h : name? u = some l) :
    ∃ c cs, u = c :: cs ∧ isNameStart c = true := by
  unfold name? at h
  split at h
  · split at h
    · next hc => exact ⟨_, _, rfl, hc⟩
    · cases h
  · cases h

/-- A text that does not open with a digit. -/
def Digitless (x : List Char) : Prop := ∀ c ∈ x.head?, c.isDigit = false

theorem Digitless.takeWhile (h : Digitless x) : x.takeWhile Char.isDigit = [] := by
  have hnil := takeWhile_append (List.forall_mem_nil _) h
  rwa [List.nil_append] at hnil

/-! ## The readers -/

section

variable (hx : Digitless x) (hx' : Digitless x')

include hx hx'

theorem signedDigits?_exchange (h : Ended u) :
    signedDigits? (u ++ x) = signedDigits? (u ++ x') := by
  obtain ⟨s, cs, rfl⟩ := List.exists_cons_of_ne_nil h.ne_nil
  rw [List.cons_append, List.cons_append, signedDigits?, signedDigits?]
  by_cases hs : s = '+' ∨ s = '-'
  · have hdigits : (cs ++ x).takeWhile Char.isDigit = (cs ++ x').takeWhile Char.isDigit := by
      by_cases hcs : cs = []
      · rw [hcs, List.nil_append, List.nil_append, hx.takeWhile, hx'.takeWhile]
      · have hended : Ended cs := Ended.of_append (l := [s]) h hcs
        rw [hended.takeWhile_append fun _ => isNamePart_of_isDigit,
          hended.takeWhile_append fun _ => isNamePart_of_isDigit]
    simp only [if_pos hs, hdigits]
  · simp only [if_neg hs, ← List.cons_append,
      h.takeWhile_append fun _ => isNamePart_of_isDigit]

theorem exponent?_exchange (h : Ended u) : exponent? (u ++ x) = exponent? (u ++ x') := by
  obtain ⟨e, cs, rfl⟩ := List.exists_cons_of_ne_nil h.ne_nil
  rw [List.cons_append, List.cons_append, exponent?, exponent?]
  by_cases he : e = 'e' ∨ e = 'E'
  · have hpart : isNamePart e = true := by rcases he with rfl | rfl <;> decide
    rw [if_pos he, if_pos he, signedDigits?_exchange hx hx' (h.of_cons hpart)]
  · rw [if_neg he, if_neg he]

/-- A point at the end of an ended text may still be followed by an exponent. -/
theorem fraction?_exchange (h : Ended u) (b : Bool) (hpoint : b = true → u ≠ ['.']) :
    fraction? b (u ++ x) = fraction? b (u ++ x') := by
  obtain ⟨c, cs, rfl⟩ := List.exists_cons_of_ne_nil h.ne_nil
  by_cases hc : c = '.'
  · subst hc
    rw [List.cons_append, List.cons_append, fraction?, fraction?]
    by_cases hcs : cs = []
    · obtain rfl : b = false := Bool.eq_false_iff.mpr fun hb => hpoint hb (by rw [hcs])
      simp [hcs, hx.takeWhile, hx'.takeWhile]
    · have hended : Ended cs := Ended.of_append (l := ['.']) h hcs
      have hparts : ∀ c, Char.isDigit c = true → isNamePart c = true :=
        fun _ => isNamePart_of_isDigit
      simp only [hended.takeWhile_append hparts, drop_takeWhile_append,
        exponent?_exchange hx hx' (hended.dropWhile hparts)]
  · rw [List.cons_append, List.cons_append, fraction?, fraction?]
    · rw [← List.cons_append, ← List.cons_append, exponent?_exchange hx hx' h]
    all_goals exact fun _ heq => absurd (List.cons.inj heq).1 hc

theorem float?_exchange (h : Ended u)
    (hpoint : ∀ ds : List Char, (∀ c ∈ ds, c.isDigit = true) → ds ≠ [] → u ≠ ds ++ ['.']) :
    float? (u ++ x) = float? (u ++ x') := by
  have hparts : ∀ c, Char.isDigit c = true → isNamePart c = true := fun _ => isNamePart_of_isDigit
  have hfraction := fraction?_exchange hx hx' (h.dropWhile hparts)
    (decide (u.takeWhile Char.isDigit ≠ [])) fun hb heq =>
      hpoint _ (fun c hc => List.mem_takeWhile_imp hc) (of_decide_eq_true hb)
        (by rw [← heq, List.takeWhile_append_dropWhile])
  simp only [float?, h.takeWhile_append hparts, drop_takeWhile_append, hfraction]

end

/-- Digits and a point are a number, or the front of one. -/
theorem exists_float?_point {ds : List Char} (hds : ∀ c ∈ ds, c.isDigit = true) (hne : ds ≠ [])
    (hx : Digitless x) : ∃ e, float? (ds ++ ['.'] ++ x) = some (ds ++ ['.'] ++ e) := by
  have hhead : ∀ c ∈ ('.' :: x).head?, c.isDigit = false := by
    rintro c hc
    obtain rfl := Option.some.inj hc
    decide
  have hfraction : fraction? (decide (ds ≠ [])) ('.' :: x) =
      some ('.' :: (exponent? x).getD []) := by
    rw [fraction?]
    simp [hx.takeWhile, hne]
  refine ⟨(exponent? x).getD [], ?_⟩
  rw [List.append_assoc, List.singleton_append, float?_append_of_digits hds hhead, hfraction,
    List.append_assoc, List.singleton_append]

theorem int?_exchange (h : Ended u) (x x' : List Char) : int? (u ++ x) = int? (u ++ x') := by
  obtain ⟨c, cs, rfl⟩ := List.exists_cons_of_ne_nil h.ne_nil
  by_cases hzero : c = '0'
  · subst hzero
    have hrest : Ended cs := h.of_cons (by decide)
    obtain ⟨y, ys, rfl⟩ := List.exists_cons_of_ne_nil hrest.ne_nil
    simp only [List.cons_append, int?]
    by_cases hy : y = 'x' ∨ y = 'X'
    · have hys : Ended ys := hrest.of_cons (by rcases hy with rfl | rfl <;> decide)
      have hhex : ∀ c, Numeral.isDigit 16 c = true → isNamePart c = true :=
        fun _ => isNamePart_of_base (by decide)
      have hoctal : (y :: (ys ++ x)).takeWhile (Numeral.isDigit 8) =
          (y :: (ys ++ x')).takeWhile (Numeral.isDigit 8) := by
        rcases hy with rfl | rfl <;> rfl
      simp only [hys.takeWhile_append hhex, hoctal]
    · have hoctal : ∀ c, Numeral.isDigit 8 c = true → isNamePart c = true :=
        fun _ => isNamePart_of_base (by decide)
      simp only [hy, false_and, if_false, ← List.cons_append, hrest.takeWhile_append hoctal]
  · simp only [List.cons_append]
    rw [int?.eq_2 _ _ (fun _ _ h _ => hzero h), int?.eq_2 _ _ (fun _ _ h _ => hzero h)]
    by_cases hc : c.isDigit = true
    · have hcs : Ended cs := h.of_cons (isNamePart_of_isDigit hc)
      simp only [hcs.takeWhile_append fun _ => isNamePart_of_isDigit]
    · rw [if_neg hc, if_neg hc]

theorem name?_exchange (h : Ended u) (x x' : List Char) : name? (u ++ x) = name? (u ++ x') := by
  obtain ⟨c, cs, rfl⟩ := List.exists_cons_of_ne_nil h.ne_nil
  rw [List.cons_append, List.cons_append, name?, name?]
  by_cases hc : isNameStart c = true
  · have hcs : Ended cs := h.of_cons (isNamePart_of_isNameStart hc)
    simp only [hcs.takeWhile_append fun _ hp => hp]
  · rw [if_neg hc, if_neg hc]

/-- A word does not reach beyond an ended text. -/
theorem Ended.prefix_append_iff (h : Ended u) {w : List Char}
    (hw : ∀ c ∈ w, isNamePart c = true) (x : List Char) : w <+: u ++ x ↔ w <+: u := by
  refine ⟨fun hprefix => ?_, fun hprefix => hprefix.trans (List.prefix_append u x)⟩
  refine (List.prefix_or_prefix_of_prefix hprefix (List.prefix_append u x)).resolve_right ?_
  rintro ⟨v, rfl⟩
  obtain ⟨u, c, rfl, hc⟩ := h
  cases (hw c (by simp)).symm.trans hc

end Lexeme

namespace Lexer

open Lexeme

variable {accept : Terminal → Bool} {u x x' cs : List Char} {l : Lexed}

theorem word?_exchange (h : Ended u) (x x' : List Char) :
    word? accept (u ++ x) = word? accept (u ++ x') := by
  rw [word?, word?, name?_exchange h x x']

theorem keyword?_exchange (h : Ended u) (x x' : List Char) :
    keyword? accept (u ++ x) = keyword? accept (u ++ x') := by
  have hsame (k : Keyword) :
      k.spelling.toList.isPrefixOf (u ++ x) = k.spelling.toList.isPrefixOf (u ++ x') := by
    have hk := isNamePart_of_names k.spelling_mem_names
    rw [Bool.eq_iff_iff, List.isPrefixOf_iff_prefix, List.isPrefixOf_iff_prefix,
      h.prefix_append_iff hk, h.prefix_append_iff hk]
  simp only [keyword?, hsame]

theorem ofClass?_float_eq_none (h : accept .float = false ∨ float? cs = none) :
    ofClass? accept .float float? cs = none := by
  rcases h with h | h
  · rw [ofClass?, if_neg (by simp [h])]
  · exact ofClass?_of_none h

theorem lexed?_of_int? (hfloat : accept .float = false ∨ float? cs = none)
    (hint : accept .int = true) {i : List Char} (h : int? cs = some i) :
    lexed? accept cs = some (.int, i) := by
  rw [lexed?, ofClass?_float_eq_none hfloat, ofClass?_of_some hint h]
  rfl

theorem lexed?_of_string? (haccept : accept .string = true) {s : List Char}
    (h : string? cs = some s) : lexed? accept cs = some (.string, s) := by
  obtain ⟨q, rest, rfl, hquote⟩ := exists_of_string? h
  have hfloat : float? (q :: rest) = none := by
    rcases hquote with rfl | rfl <;> exact float?_eq_none (by decide) (by decide)
  have hint : int? (q :: rest) = none := by
    rcases hquote with rfl | rfl <;> exact int?_eq_none (by decide)
  rw [lexed?, ofClass?_of_none hfloat, ofClass?_of_none hint, ofClass?_of_some haccept h]
  rfl

theorem lexed?_of_word? (haccept : accept .name = true) (h : word? accept cs = some l) :
    lexed? accept cs = some l := by
  obtain ⟨hname, -⟩ := word?_cases h
  obtain ⟨c, rest, rfl, hc⟩ := exists_start_of_name? hname
  rw [lexed?_of_isNameStart hc, if_pos haccept, h]
  rfl

theorem lexed?_of_keyword? (hname : accept .name = false) (h : keyword? accept cs = some l) :
    lexed? accept cs = some l := by
  obtain ⟨k, -, -, rest, rfl⟩ := keyword?_cases h
  obtain ⟨c, ds, hspelling, hc, -⟩ := exists_of_mem_names k.spelling_mem_names
  rw [hspelling, List.cons_append] at h ⊢
  rw [lexed?_of_isNameStart hc, if_neg (by simp [hname]), h]
  rfl

theorem lexed?_of_mark? (hfloat : accept .float = false ∨ float? cs = none)
    (h : mark? accept cs = some l) : lexed? accept cs = some l := by
  obtain ⟨m, rest, haccept, rfl, rfl⟩ := mark?_cases h
  have hstart : isNameStart m.character = false := by cases m <;> decide
  have hint : int? (m.character :: rest) = none := int?_eq_none (by cases m <;> decide)
  have hstring : string? (m.character :: rest) = none := string?_eq_none (by cases m <;> decide)
  have hword : (if accept .name then word? accept (m.character :: rest)
      else keyword? accept (m.character :: rest)) = none := by
    split
    · exact word?_of_none (name?_eq_none hstart)
    · exact keyword?_eq_none hstart
  rw [lexed?, ofClass?_float_eq_none hfloat, ofClass?_of_none hint, ofClass?_of_none hstring, hword,
    h]
  rfl

/-- A lexeme within an ended text is found whatever the text goes on with, but a number with a point
at its end may go on with an exponent. -/
theorem lexed?_exchange (h : Ended u) (hx : Digitless x) (hx' : Digitless x')
    (hl : lexed? accept (u ++ x) = some l) (hwithin : l.2 <+: u)
    (hwhole : l.2 = u → l.1 ≠ .float) : lexed? accept (u ++ x') = some l := by
  -- a number that ends with a point is the whole of the ended text
  have hpoint : accept .float = true → ∀ ds : List Char, (∀ c ∈ ds, c.isDigit = true) → ds ≠ [] →
      u ≠ ds ++ ['.'] := by
    rintro haccept ds hds hne rfl
    obtain ⟨e, he⟩ := exists_float?_point hds hne hx
    have hread : lexed? accept (ds ++ ['.'] ++ x) = some (.float, ds ++ ['.'] ++ e) := by
      rw [lexed?, ofClass?_of_some haccept he]
      rfl
    obtain rfl := Option.some.inj (hread.symm.trans hl)
    refine hwhole ?_ rfl
    exact hwithin.eq_of_length_le (by simp)
  have hnumber (hfloat : accept .float = false ∨ float? (u ++ x) = none) :
      accept .float = false ∨ float? (u ++ x') = none := by
    cases haccept : accept .float with
    | false => exact .inl rfl
    | true =>
      rw [haccept] at hfloat
      rw [← float?_exchange hx hx' h (hpoint haccept)]
      exact .inr (hfloat.resolve_left (by simp))
  obtain ⟨t, w⟩ := l
  rcases lexed?_cases hl with ⟨haccept, hread, rfl⟩ | ⟨hfloat, haccept, hread, rfl⟩ |
    ⟨haccept, hread, rfl⟩ | ⟨haccept, hread⟩ | ⟨haccept, hread⟩ | ⟨hfloat, hread⟩
  · rw [float?_exchange hx hx' h (hpoint haccept)] at hread
    rw [lexed?, ofClass?_of_some haccept hread]
    rfl
  · exact lexed?_of_int? (hnumber hfloat) haccept (int?_exchange h x x' ▸ hread)
  · obtain ⟨v, rfl⟩ := hwithin
    refine lexed?_of_string? haccept ?_
    rw [List.append_assoc]
    exact string?_append (mem_strings_of_string? hread)
  · exact lexed?_of_word? haccept (word?_exchange h x x' ▸ hread)
  · exact lexed?_of_keyword? haccept (keyword?_exchange h x x' ▸ hread)
  · refine lexed?_of_mark? (hnumber hfloat) ?_
    obtain ⟨c, cs, rfl⟩ := List.exists_cons_of_ne_nil h.ne_nil
    exact hread

end Lexer

end ProtoSchema
