import ProtoSchema.Proofs.Token.Legible

/-!
# Cuts

What a lexer reads depends on the terminals that it may read. Compared with the lexer that may read
every terminal, it finds the same lexeme, with two exceptions (`Lexer.exists_cut`): where no number
with a point may stand, the digits or the point in front of such a number are read by themselves,
and where no name may stand, a keyword in front of a longer word is. Inside of such a word the lexer
reads on by whole pieces of it (`Lexer.exists_piece`), so that the two meet again at its end.
-/

namespace ProtoSchema

/-! ## Places in order -/

namespace Position

/-- Places are ordered by their lines, and by their columns on the same line. -/
instance : Preorder Position where
  le p q := p.line < q.line ∨ p.line = q.line ∧ p.column ≤ q.column
  le_refl p := .inr ⟨rfl, Nat.le_refl _⟩
  le_trans p q r hpq hqr := by omega

theorem le_next (p : Position) (c : Char) : p ≤ p.next c := by
  unfold next
  split
  · exact .inl (Nat.lt_succ_self _)
  · exact .inr ⟨rfl, Nat.le_succ _⟩

theorem le_advance (p : Position) (cs : List Char) : p ≤ p.advance cs := by
  induction cs generalizing p with
  | nil => exact le_refl p
  | cons c cs ih => exact (p.le_next c).trans (ih (p.next c))

/-- A place within a text is not behind its end. -/
theorem advance_le_of_prefix {l m : List Char} (p : Position) (h : l <+: m) :
    p.advance l ≤ p.advance m := by
  obtain ⟨rest, rfl⟩ := h
  rw [advance_append]
  exact le_advance _ rest

end Position

namespace Cursor

theorem blank?_skipBlanks (c : Cursor) : Lexeme.blank? c.skipBlanks.rest = none := by
  fun_induction skipBlanks c with
  | case1 c lexeme h hlt ih => exact ih
  | case2 c h => exact h

@[simp]
theorem skipBlanks_skipBlanks (c : Cursor) : c.skipBlanks.skipBlanks = c.skipBlanks :=
  skipBlanks_of_none c.blank?_skipBlanks

theorem position_le_skipBlanks (c : Cursor) : c.position ≤ c.skipBlanks.position := by
  obtain ⟨gap, -, -, hplace⟩ := c.exists_gap_skipBlanks
  exact hplace ▸ c.position.le_advance gap

end Cursor

/-! ## Fronts of longer lexemes -/

namespace Lexeme

variable {l cs inner tail : List Char}

theorem prefix_takeWhile {p : Char → Bool} (h : l <+: cs) (hl : ∀ c ∈ l, p c = true) :
    l <+: cs.takeWhile p := by
  obtain ⟨rest, rfl⟩ := h
  rw [List.takeWhile_append_of_pos hl]
  exact List.prefix_append _ _

/-- Digits open a number, and a point or an exponent stands behind them. -/
theorem exists_of_float? (h : float? cs = some l) :
    ∃ c behind, l = cs.takeWhile Char.isDigit ++ c :: behind ∧ (c = '.' ∨ c = 'e' ∨ c = 'E') := by
  unfold float? at h
  simp only at h
  split at h
  · cases h
  · next c behind hfraction =>
    obtain rfl := Option.some.inj h
    refine ⟨c, behind, rfl, ?_⟩
    unfold fraction? at hfraction
    split at hfraction
    · simp only at hfraction
      split at hfraction
      · exact .inl (List.cons.inj (Option.some.inj hfraction)).1.symm
      · cases hfraction
    · split at hfraction
      · unfold exponent? at hfraction
        split at hfraction
        · split at hfraction
          · next he =>
            obtain ⟨ds, -, heq⟩ := Option.map_eq_some_iff.mp hfraction
            obtain rfl := (List.cons.inj heq).1
            exact .inr he
          · cases hfraction
        · cases hfraction
      · cases hfraction
  · cases h

/-- An integer in front of a number with a point or an exponent ends before these. -/
theorem prefix_digits_of_int? {i : List Char} (hint : int? cs = some i)
    (hfloat : float? cs = some l) : i <+: cs.takeWhile Char.isDigit := by
  refine prefix_takeWhile (int?_opens hint).1 ?_
  rcases exists_of_mem_integers (mem_integers_of_int? hint) with
    ⟨x, ds, rfl, hx, -, -⟩ | ⟨c, ds, rfl, hfirst, hlast, hds⟩ | ⟨ds, rfl, hds⟩
  · -- behind the zero of a hexadecimal numeral there is its marker
    obtain ⟨rest, rfl⟩ := (int?_opens hint).1
    obtain ⟨c, behind, rfl, hc⟩ := exists_of_float? hfloat
    have hmarker : ∀ c ∈ (x :: ds ++ rest).head?, c.isDigit = false := by
      rintro c hc
      obtain rfl := Option.some.inj hc
      rcases hx with rfl | rfl <;> decide
    have hzero : ∀ c ∈ ['0'], c.isDigit = true := by simp
    have hopens := (float?_opens hfloat).1
    rw [show '0' :: x :: ds ++ rest = ['0'] ++ (x :: ds ++ rest) from rfl,
      takeWhile_append hzero hmarker, List.prefix_append_right_inj, List.cons_append,
      List.cons_prefix_cons] at hopens
    obtain rfl := hopens.1
    rcases hx with rfl | rfl <;> simp at hc
  · refine List.forall_mem_cons.mpr ⟨?_, hds⟩
    simp only [Char.isDigit, Bool.and_eq_true, decide_eq_true_eq]
    exact ⟨Char.le_trans (by decide) hfirst, hlast⟩
  · exact List.forall_mem_cons.mpr ⟨by decide, fun c hc => isDigit_of_octal (hds c hc)⟩

theorem exists_of_string? (h : string? cs = some l) :
    ∃ q rest, cs = q :: rest ∧ (q = '"' ∨ q = '\'') := by
  unfold string? at h
  split at h
  · split at h
    · next hquote => exact ⟨_, _, rfl, hquote⟩
    · cases h
  · cases h

/-- A text that opens with a word opens with a name, the longest of it. -/
theorem name?_append_of_names (h : l ∈ names) (tail : List Char) :
    name? (l ++ tail) = some (l ++ tail.takeWhile isNamePart) := by
  obtain ⟨c, cs, rfl, hc, hcs⟩ := exists_of_mem_names h
  rw [List.cons_append, name?, if_pos hc, List.takeWhile_append_of_pos hcs, List.cons_append]

/-- What continues a name but does not open one is a digit. -/
theorem isDigit_of_isNamePart {c : Char} (h : isNamePart c = true)
    (hstart : isNameStart c = false) : c.isDigit = true := by
  simp only [isNamePart, Char.isAlphanum, Bool.or_eq_true, decide_eq_true_eq] at h
  simp only [isNameStart, decide_eq_false_iff_not, not_or] at hstart
  rcases h with (h | h) | h
  · exact absurd h hstart.1
  · exact h
  · exact absurd h hstart.2

theorem isNamePart_of_integers (h : l ∈ integers) : ∀ c ∈ l, isNamePart c = true := by
  rcases exists_of_mem_integers h with
    ⟨x, ds, rfl, hx, -, hds⟩ | ⟨c, ds, rfl, hfirst, hlast, hds⟩ | ⟨ds, rfl, hds⟩
  · have hmarker : isNamePart x = true := by rcases hx with rfl | rfl <;> decide
    exact List.forall_mem_cons.mpr ⟨by decide, List.forall_mem_cons.mpr ⟨hmarker, fun c hc =>
      isNamePart_of_hexDigit (hds c hc)⟩⟩
  · refine List.forall_mem_cons.mpr ⟨isNamePart_of_isDigit ?_, fun c hc =>
      isNamePart_of_isDigit (hds c hc)⟩
    simp only [Char.isDigit, Bool.and_eq_true, decide_eq_true_eq]
    exact ⟨Char.le_trans (by decide) hfirst, hlast⟩
  · exact List.forall_mem_cons.mpr ⟨by decide, fun c hc =>
      isNamePart_of_isDigit (isDigit_of_octal (hds c hc))⟩

theorem exists_int? {c : Char} (h : c.isDigit = true) (rest : List Char) :
    ∃ i, int? (c :: rest) = some i := by
  unfold int?
  split
  · simp only
    split <;> exact ⟨_, rfl⟩
  · next heq =>
    obtain ⟨rfl, rfl⟩ := List.cons.inj heq
    exact ⟨_, if_pos h⟩
  · next heq => cases heq

end Lexeme

namespace Lexer

variable {accept : Terminal → Bool} {c cursor behind : Cursor} {t : Token} {l : Lexed}

/-! ## Scans -/

theorem next_of_lexed? (h : lexed? accept c.skipBlanks.rest = some l) :
    next accept c =
      .token ⟨l.1, l.2, c.skipBlanks.position⟩ (c.skipBlanks.after l.2) := by
  have hne : c.skipBlanks.rest ≠ [] := by
    intro hnil
    rw [hnil] at h
    exact (lexed?_opens h).2 (List.prefix_nil.mp (lexed?_opens h).1)
  simp only [next, if_neg hne, h]

theorem next_of_none (hne : c.skipBlanks.rest ≠ [])
    (h : lexed? accept c.skipBlanks.rest = none) : next accept c = .stuck c.skipBlanks := by
  simp only [next, if_neg hne, h]

theorem next_of_nil (h : c.skipBlanks.rest = []) : next accept c = .finished c.skipBlanks := by
  simp only [next, if_pos h]

theorem exists_of_next_token (h : next accept c = .token t behind) :
    lexed? accept c.skipBlanks.rest = some (t.terminal, t.lexeme) ∧
      t.position = c.skipBlanks.position ∧ behind = c.skipBlanks.after t.lexeme := by
  simp only [next] at h
  split at h
  · cases h
  · split at h
    · next hlexed =>
      obtain ⟨rfl, rfl⟩ := Scan.token.inj h
      exact ⟨hlexed, rfl, rfl⟩
    · cases h

theorem eq_of_next_stuck (h : next accept c = .stuck cursor) :
    cursor = c.skipBlanks ∧ cursor.rest ≠ [] := by
  simp only [next] at h
  split at h
  · cases h
  · next hne =>
    split at h
    · cases h
    · obtain rfl := Scan.stuck.inj h
      exact ⟨rfl, hne⟩

theorem eq_of_next_finished (h : next accept c = .finished cursor) :
    cursor = c.skipBlanks ∧ cursor.rest = [] := by
  simp only [next] at h
  split at h
  · next hnil =>
    obtain rfl := Scan.finished.inj h
    exact ⟨rfl, hnil⟩
  · split at h <;> cases h

@[simp]
theorem next_skipBlanks : next accept c.skipBlanks = next accept c := by
  simp [next]

theorem tokensFrom_of_token (h : next (fun _ => true) c = .token t behind) :
    tokensFrom c = (tokensFrom behind).map (t :: ·) := by
  rw [tokensFrom]
  split
  · next heq =>
    obtain ⟨rfl, rfl⟩ := Scan.token.inj (h.symm.trans heq)
    rfl
  · next heq => cases h.symm.trans heq
  · next heq => cases h.symm.trans heq

theorem tokensFrom_of_finished (h : next (fun _ => true) c = .finished cursor) :
    tokensFrom c = .ok [] := by
  rw [tokensFrom]
  split
  · next heq => cases h.symm.trans heq
  · rfl
  · next heq => cases h.symm.trans heq

theorem tokensFrom_of_stuck (h : next (fun _ => true) c = .stuck cursor) :
    tokensFrom c = .error (faultAt cursor) := by
  rw [tokensFrom]
  split
  · next heq => cases h.symm.trans heq
  · next heq => cases h.symm.trans heq
  · next heq =>
    obtain rfl := Scan.stuck.inj (h.symm.trans heq)
    rfl

theorem position_faultAt (c : Cursor) : (faultAt c).position = c.position := by
  fun_cases faultAt c <;> rfl

/-- A listing of tokens fails at a place that is still to be read. -/
theorem position_le_of_tokensFrom {fault : Fault} (h : tokensFrom c = .error fault) :
    c.skipBlanks.position ≤ fault.position := by
  fun_induction tokensFrom c with
  | case1 c t behind hnext hlt ih =>
    obtain ⟨-, -, rfl⟩ := exists_of_next_token hnext
    cases hrest : tokensFrom (c.skipBlanks.after t.lexeme) with
    | ok ts =>
      rw [hrest] at h
      cases h
    | error fault' =>
      rw [hrest] at h
      obtain rfl := Except.error.inj h
      exact (c.skipBlanks.position.le_advance t.lexeme).trans
        ((Cursor.position_le_skipBlanks _).trans (ih hrest))
  | case2 => cases h
  | case3 c cursor hnext =>
    obtain ⟨rfl, -⟩ := eq_of_next_stuck hnext
    obtain rfl := Except.error.inj h
    exact (position_faultAt _).ge

/-! ## Classes -/

/-- What has been read, by its class. -/
theorem lexed?_cases {cs : List Char} (h : lexed? accept cs = some l) :
    (accept .float = true ∧ Lexeme.float? cs = some l.2 ∧ l.1 = .float) ∨
    ((accept .float = false ∨ Lexeme.float? cs = none) ∧ accept .int = true ∧
      Lexeme.int? cs = some l.2 ∧ l.1 = .int) ∨
    (accept .string = true ∧ Lexeme.string? cs = some l.2 ∧ l.1 = .string) ∨
    (accept .name = true ∧ word? accept cs = some l) ∨
    (accept .name = false ∧ keyword? accept cs = some l) ∨
    ((accept .float = false ∨ Lexeme.float? cs = none) ∧ mark? accept cs = some l) := by
  have hsome {t : Terminal} {read : List Char → Option (List Char)}
      (h : ofClass? accept t read cs = some l) :
      accept t = true ∧ read cs = some l.2 ∧ l.1 = t := by
    unfold ofClass? at h
    split at h
    · next haccept =>
      obtain ⟨m, hm, rfl⟩ := Option.map_eq_some_iff.mp h
      exact ⟨haccept, hm, rfl⟩
    · cases h
  have hnone {t : Terminal} {read : List Char → Option (List Char)}
      (h : ofClass? accept t read cs = none) : accept t = false ∨ read cs = none := by
    unfold ofClass? at h
    split at h
    · exact .inr (Option.map_eq_none_iff.mp h)
    · next haccept => exact .inl (Bool.eq_false_iff.mpr haccept)
  simp only [lexed?, Option.orElse_eq_orElse, Option.orElse_eq_or, Option.or_eq_some_iff] at h
  rcases h with h | ⟨hfloat, h | ⟨-, h | ⟨-, h | ⟨-, h⟩⟩⟩⟩
  · exact .inl (hsome h)
  · exact .inr (.inl ⟨hnone hfloat, hsome h⟩)
  · exact .inr (.inr (.inl (hsome h)))
  · split at h
    · next hname => exact .inr (.inr (.inr (.inl ⟨hname, h⟩)))
    · next hname => exact .inr (.inr (.inr (.inr (.inl ⟨Bool.eq_false_iff.mpr hname, h⟩))))
  · exact .inr (.inr (.inr (.inr (.inr ⟨hnone hfloat, h⟩))))

/-- A word is a name, or the keyword that is spelled like it. -/
theorem word?_cases {cs : List Char} (h : word? accept cs = some l) :
    Lexeme.name? cs = some l.2 ∧
      (l.1 = .name ∨ ∃ k, accept (.keyword k) = true ∧ l.1 = .keyword k ∧
        Keyword.ofSpelling? l.2 = some k) := by
  obtain ⟨w, hw, rfl⟩ := Option.map_eq_some_iff.mp h
  split
  · next k hk =>
    split
    · next haccept => exact ⟨hw, .inr ⟨k, haccept, rfl, hk⟩⟩
    · exact ⟨hw, .inl rfl⟩
  · exact ⟨hw, .inl rfl⟩

theorem keyword?_cases {cs : List Char} (h : keyword? accept cs = some l) :
    ∃ k, accept (.keyword k) = true ∧ l = (.keyword k, k.spelling.toList) ∧
      k.spelling.toList <+: cs := by
  obtain ⟨k, hk, rfl⟩ := Option.map_eq_some_iff.mp h
  have hfound := List.find?_some hk
  rw [Bool.and_eq_true] at hfound
  exact ⟨k, hfound.1, rfl, List.isPrefixOf_iff_prefix.mp hfound.2⟩

theorem mark?_cases {cs : List Char} (h : mark? accept cs = some l) :
    ∃ m rest, accept (.mark m) = true ∧ l = (.mark m, [m.character]) ∧
      cs = m.character :: rest := by
  unfold mark? at h
  split at h
  · next c rest =>
    obtain ⟨m, hm, rfl⟩ := Option.map_eq_some_iff.mp h
    have hfound := List.find?_some hm
    rw [Bool.and_eq_true, beq_iff_eq] at hfound
    exact ⟨m, rest, hfound.1, by rw [hfound.2], by rw [hfound.2]⟩
  · cases h

/-- What is read is of an accepted terminal. -/
theorem accept_of_lexed? {cs : List Char} (h : lexed? accept cs = some l) : accept l.1 = true := by
  rcases lexed?_cases h with ⟨haccept, -, hl⟩ | ⟨-, haccept, -, hl⟩ | ⟨haccept, -, hl⟩ |
    ⟨haccept, hread⟩ | ⟨-, hread⟩ | ⟨-, hread⟩
  · rwa [hl]
  · rwa [hl]
  · rwa [hl]
  · obtain ⟨-, hl | ⟨k, haccept', hl, -⟩⟩ := word?_cases hread <;> rwa [hl]
  · obtain ⟨k, haccept, rfl, -⟩ := keyword?_cases hread
    exact haccept
  · obtain ⟨m, _, haccept, rfl, -⟩ := mark?_cases hread
    exact haccept

/-- Nothing is read where no lexeme of an accepted terminal opens with what is there. -/
theorem lexed?_eq_none {c : Char} (h : ∀ t, accept t = true → ∀ cs, c :: cs ∉ t.language)
    (rest : List Char) : lexed? accept (c :: rest) = none := by
  cases hread : lexed? accept (c :: rest) with
  | none => rfl
  | some l =>
    obtain ⟨hfront, hne⟩ := lexed?_opens hread
    have hlanguage := mem_language_of_lexed? hread
    obtain ⟨x, xs, hl⟩ := List.exists_cons_of_ne_nil hne
    rw [hl] at hfront hlanguage
    obtain rfl := (List.cons_prefix_cons.mp hfront).1
    exact absurd hlanguage (h l.1 (accept_of_lexed? hread) xs)

/-! ## With and without all terminals -/

end Lexer

/-- The terminals whose lexemes are words. -/
def Terminal.isWord : Terminal → Bool
  | .name | .keyword _ => true
  | _ => false

theorem Terminal.isWord_iff {t : Terminal} :
    t.isWord = true ↔ t = .name ∨ ∃ k, t = .keyword k := by
  cases t <;> simp [isWord]

/-- The rest of a word that has been read in part, and the text behind the word. -/
structure Lexeme.WordRest (inner tail : List Char) : Prop where
  parts : ∀ c ∈ inner, isNamePart c = true
  ends : inner ≠ [] → ∀ c ∈ tail.head?, isNamePart c = false

/-- How what is read of a text, where some terminals are accepted, lies to what is read of it where
all are. -/
inductive Lexed.Cut (accept : Terminal → Bool) (cs : List Char) (l m : Lexed) : Prop
  /-- The lexemes are the same, but a keyword may be read as a name. -/
  | whole (hlexeme : m.2 = l.2) (hterminal : m.1 = l.1 ∨ l.1 = .name ∧ ∃ k, m.1 = .keyword k)
  /-- The front of a number with a point or an exponent, which is not accepted. -/
  | number (hterminal : l.1 = .int ∨ l.1 = .mark .dot) (hfloat : accept .float = false)
      (hfront : l.2 <+: m.2) (c : Char) (rest : List Char) (hrest : cs = l.2 ++ c :: rest)
      (hc : c.isDigit = true ∨ l.1 = .int ∧ (c = '.' ∨ c = 'e' ∨ c = 'E'))
  /-- A keyword in front of a longer word, where names are not accepted. -/
  | word (k : Keyword) (hterminal : l.1 = .keyword k) (hname : accept .name = false)
      (hword : m.1.isWord = true) (inner tail : List Char) (hinner : inner ≠ [])
      (hrest : Lexeme.WordRest inner tail) (hlexeme : m.2 = l.2 ++ inner) (hcs : cs = m.2 ++ tail)

namespace Lexer

open Lexed (Cut)

variable {accept : Terminal → Bool} {l : Lexed} {cs : List Char}

/-- Where all terminals are accepted, a word is read as a whole, and a keyword as what it is. -/
theorem exists_word {w : List Char} (h : Lexeme.name? cs = some w) :
    ∃ m : Lexed, lexed? (fun _ => true) cs = some m ∧ m.2 = w ∧ m.1.isWord = true ∧
      ∀ k, Keyword.ofSpelling? w = some k → m.1 = .keyword k := by
  obtain ⟨c, rest, rfl, hc⟩ : ∃ c rest, cs = c :: rest ∧ Lexeme.isNameStart c = true := by
    unfold Lexeme.name? at h
    split at h
    · split at h
      · next hc => exact ⟨_, _, rfl, hc⟩
      · cases h
    · cases h
  rw [lexed?_of_isNameStart hc, if_pos rfl, word?, h, Option.map_some]
  cases hk : Keyword.ofSpelling? w with
  | none => exact ⟨_, rfl, rfl, rfl, by simp⟩
  | some k =>
    refine ⟨_, rfl, rfl, rfl, fun k' hk' => ?_⟩
    obtain rfl := Option.some.inj hk'
    rfl

/-- A keyword of a text where names are not accepted. -/
theorem exists_cut_of_keyword? (haccept : accept .name = false)
    (h : keyword? accept cs = some l) :
    ∃ m, lexed? (fun _ => true) cs = some m ∧ Cut accept cs l m := by
  obtain ⟨k, -, rfl, rest, rfl⟩ := keyword?_cases h
  have hname := Lexeme.name?_append_of_names k.spelling_mem_names rest
  obtain ⟨m, hm, hlexeme, hword, hkeyword⟩ := exists_word hname
  refine ⟨m, hm, ?_⟩
  by_cases hinner : rest.takeWhile Lexeme.isNamePart = []
  · rw [hinner, List.append_nil] at hlexeme hkeyword
    exact .whole hlexeme (.inl (hkeyword k k.ofSpelling?_spelling))
  · refine .word k rfl haccept hword _ (rest.dropWhile Lexeme.isNamePart) hinner ⟨?_, fun _ => ?_⟩
      hlexeme ?_
    · exact fun c hc => List.mem_takeWhile_imp hc
    · intro c hc
      have hnot := List.head?_dropWhile_not Lexeme.isNamePart rest
      rw [Option.mem_def] at hc
      rwa [hc] at hnot
    · rw [hlexeme, List.append_assoc, List.takeWhile_append_dropWhile]

/-- A mark of a text. -/
theorem exists_cut_of_mark? (hfloat : accept .float = false ∨ Lexeme.float? cs = none)
    (h : mark? accept cs = some l) :
    ∃ m, lexed? (fun _ => true) cs = some m ∧ Cut accept cs l m := by
  obtain ⟨mark, rest, -, rfl, rfl⟩ := mark?_cases h
  cases hread : Lexeme.float? (mark.character :: rest) with
  | none =>
    have hint : Lexeme.int? (mark.character :: rest) = none :=
      Lexeme.int?_eq_none (by cases mark <;> decide)
    have hstring : Lexeme.string? (mark.character :: rest) = none :=
      Lexeme.string?_eq_none (by cases mark <;> decide)
    have hname : Lexeme.name? (mark.character :: rest) = none :=
      Lexeme.name?_eq_none (by cases mark <;> decide)
    refine ⟨(.mark mark, [mark.character]), ?_, .whole rfl (.inl rfl)⟩
    rw [lexed?, ofClass?_of_none hread, ofClass?_of_none hint, ofClass?_of_none hstring, if_pos rfl,
      word?_of_none hname, mark?_character rfl]
    rfl
  | some f =>
    -- only a point opens a number, and only if a digit follows
    have hrefused := hfloat.resolve_right (by rw [hread]; exact Option.some_ne_none f)
    have hdigit : mark.character.isDigit = false := by cases mark <;> decide
    have hpoint : mark.character = '.' := by
      by_contra hpoint
      cases (Lexeme.float?_eq_none hdigit hpoint).symm.trans hread
    obtain rfl : mark = .dot := Mark.character_injective hpoint
    have hall : lexed? (fun _ => true) (Mark.dot.character :: rest) = some (.float, f) := by
      rw [lexed?, ofClass?_of_some rfl hread]
      rfl
    refine ⟨_, hall, ?_⟩
    by_cases hrest : ∀ c ∈ rest.head?, c.isDigit = false
    · cases (Lexeme.float?_dot hrest).symm.trans hread
    · obtain ⟨d, hd, hdigit⟩ : ∃ d ∈ rest.head?, d.isDigit = true := by simpa using hrest
      obtain ⟨rest, rfl⟩ : ∃ ds, rest = d :: ds := List.head?_eq_some_iff.mp hd
      refine .number (.inr rfl) hrefused ?_ d rest rfl (.inl hdigit)
      obtain ⟨hfront, hne⟩ := Lexeme.float?_opens hread
      obtain ⟨x, f, rfl⟩ := List.exists_cons_of_ne_nil hne
      rw [List.cons_prefix_cons] at hfront
      rw [hfront.1]
      exact List.cons_prefix_cons.mpr ⟨rfl, List.nil_prefix⟩

/-- Whatever is read where some terminals are accepted, something is read where all are: the same
lexeme, a number that the lexeme opens, or a word that it opens. -/
theorem exists_cut (h : lexed? accept cs = some l) :
    ∃ m, lexed? (fun _ => true) cs = some m ∧ Cut accept cs l m := by
  rcases lexed?_cases h with ⟨-, hread, hl⟩ | ⟨hfloat, -, hread, hl⟩ | ⟨-, hread, hl⟩ |
    ⟨-, hread⟩ | ⟨haccept, hread⟩ | ⟨hfloat, hread⟩
  · refine ⟨(.float, l.2), ?_, .whole rfl (.inl hl.symm)⟩
    rw [lexed?, ofClass?_of_some rfl hread]
    rfl
  · cases hnumber : Lexeme.float? cs with
    | none =>
      refine ⟨(.int, l.2), ?_, .whole rfl (.inl hl.symm)⟩
      rw [lexed?, ofClass?_of_none hnumber, ofClass?_of_some rfl hread]
      rfl
    | some f =>
      have hrefused := hfloat.resolve_right (by rw [hnumber]; exact Option.some_ne_none f)
      refine ⟨(.float, f), ?_, ?_⟩
      · rw [lexed?, ofClass?_of_some rfl hnumber]
        rfl
      obtain ⟨c, behind, rfl, hc⟩ := Lexeme.exists_of_float? hnumber
      have hdigits := Lexeme.prefix_digits_of_int? hread hnumber
      have hopens := (Lexeme.float?_opens hnumber).1
      have hall : ∀ x ∈ cs.takeWhile Char.isDigit, x.isDigit = true :=
        fun x hx => List.mem_takeWhile_imp hx
      obtain ⟨more, hmore⟩ := hdigits
      rw [← hmore] at hall hopens ⊢
      rw [List.append_assoc] at hopens ⊢
      obtain ⟨tail, rfl⟩ := hopens
      cases more with
      | nil =>
        exact .number (.inl hl) hrefused (List.prefix_append _ _) c (behind ++ tail) (by simp)
          (.inr ⟨hl, hc⟩)
      | cons d more =>
        exact .number (.inl hl) hrefused (List.prefix_append _ _) d
          (more ++ c :: behind ++ tail) (by simp) (.inl (hall d (by simp)))
  · obtain ⟨q, rest, rfl, hquote⟩ := Lexeme.exists_of_string? hread
    have hfloat : Lexeme.float? (q :: rest) = none := by
      rcases hquote with rfl | rfl <;> exact Lexeme.float?_eq_none (by decide) (by decide)
    have hint : Lexeme.int? (q :: rest) = none := by
      rcases hquote with rfl | rfl <;> exact Lexeme.int?_eq_none (by decide)
    refine ⟨(.string, l.2), ?_, .whole rfl (.inl hl.symm)⟩
    rw [lexed?, ofClass?_of_none hfloat, ofClass?_of_none hint, ofClass?_of_some rfl hread]
    rfl
  · obtain ⟨hname, hl⟩ := word?_cases hread
    obtain ⟨m, hm, hlexeme, hword, hkeyword⟩ := exists_word hname
    refine ⟨m, hm, .whole hlexeme ?_⟩
    rcases hl with hl | ⟨k, -, hl, hk⟩
    · exact (Terminal.isWord_iff.mp hword).imp (fun hm => hm.trans hl.symm) fun hm => ⟨hl, hm⟩
    · exact .inl ((hkeyword k hk).trans hl.symm)
  · exact exists_cut_of_keyword? haccept hread
  · exact exists_cut_of_mark? hfloat hread

/-- Inside of a word, where no numbers with a point or an exponent are accepted, a piece of the word
is read: all that is left of it, an integer, or a keyword where names are not accepted. -/
theorem exists_piece {inner tail : List Char} (h : lexed? accept (inner ++ tail) = some l)
    (hword : Lexeme.WordRest inner tail) (hinner : inner ≠ []) (hfloat : accept .float = false) :
    ∃ rest, inner = l.2 ++ rest ∧
      (rest = [] ∨ l.1 = .int ∨ ∃ k, l.1 = .keyword k ∧ accept .name = false) := by
  have hwhole : (inner ++ tail).takeWhile Lexeme.isNamePart = inner :=
    Lexeme.takeWhile_append hword.parts (hword.ends hinner)
  have hpiece (hl : ∀ c ∈ l.2, Lexeme.isNamePart c = true) : ∃ rest, inner = l.2 ++ rest := by
    obtain ⟨rest, hrest⟩ := Lexeme.prefix_takeWhile (lexed?_opens h).1 hl
    exact ⟨rest, (hrest.trans hwhole).symm⟩
  have hlanguage := mem_language_of_lexed? h
  obtain ⟨c, rest, rfl⟩ := List.exists_cons_of_ne_nil hinner
  have hc := hword.parts c List.mem_cons_self
  rcases lexed?_cases h with ⟨haccept, -⟩ | ⟨-, -, hread, hl⟩ | ⟨-, hread, -⟩ |
    ⟨-, hread⟩ | ⟨haccept, hread⟩ | ⟨-, hread⟩
  · cases haccept.symm.trans hfloat
  · rw [hl] at hlanguage
    obtain ⟨others, hothers⟩ := hpiece (Lexeme.isNamePart_of_integers hlanguage)
    exact ⟨others, hothers, .inr (.inl hl)⟩
  · obtain ⟨q, _, heq, hquote⟩ := Lexeme.exists_of_string? hread
    obtain rfl : c = q := (List.cons.inj heq).1
    rcases hquote with rfl | rfl <;> exact absurd hc (by decide)
  · obtain ⟨hname, -⟩ := word?_cases hread
    refine ⟨[], ?_, .inl rfl⟩
    rw [List.cons_append, Lexeme.name?] at hname
    split at hname
    · rw [List.cons_append, List.takeWhile_cons_of_pos hc] at hwhole
      rw [List.append_nil, ← hwhole]
      exact Option.some.inj hname
    · cases hname
  · obtain ⟨k, -, rfl, -⟩ := keyword?_cases hread
    obtain ⟨others, hothers⟩ := hpiece (Lexeme.isNamePart_of_names k.spelling_mem_names)
    exact ⟨others, hothers, .inr (.inr ⟨k, rfl, haccept⟩)⟩
  · obtain ⟨m, _, -, -, heq⟩ := mark?_cases hread
    obtain rfl : c = m.character := (List.cons.inj heq).1
    exact absurd hc (by cases m <;> decide)

/-- Where all terminals are accepted, something is read inside of a word and of a number. -/
theorem exists_lexed?_of_part {c : Char} (h : Lexeme.isNamePart c = true ∨ c = '.')
    (rest : List Char) : ∃ m, lexed? (fun _ => true) (c :: rest) = some m := by
  have hclass : (∃ i, Lexeme.int? (c :: rest) = some i) ∨
      (∃ w, Lexeme.name? (c :: rest) = some w) ∨ c = '.' := by
    rcases h with hpart | hpoint
    · by_cases hstart : Lexeme.isNameStart c = true
      · exact .inr (.inl ⟨_, by rw [Lexeme.name?, if_pos hstart]⟩)
      · have hdigit := Lexeme.isDigit_of_isNamePart hpart (Bool.eq_false_iff.mpr hstart)
        exact .inl (Lexeme.exists_int? hdigit rest)
    · exact .inr (.inr hpoint)
  rcases hclass with ⟨i, hi⟩ | ⟨w, hw⟩ | rfl
  · have hint : lexed? (· = .int) (c :: rest) = some (.int, i) := by
      rw [lexed?, ofClass?_of_some (by decide) hi]
      rfl
    exact (exists_cut hint).imp fun _ hm => hm.1
  · exact (exists_word hw).imp fun _ hm => hm.1
  · have hdot : lexed? (· = .mark .dot) ('.' :: rest) = some (.mark .dot, ['.']) := by
      rfl
    exact (exists_cut hdot).imp fun _ hm => hm.1

end Lexer

end ProtoSchema
