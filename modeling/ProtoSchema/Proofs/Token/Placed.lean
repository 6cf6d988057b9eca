import ProtoSchema.Proofs.Token.Cut

/-!
# Places of tokens

A place of a text is told by what stands in front of it (`Position.behind`), without stepping
through it, and no two places of a text are told alike. A listing of tokens is sound when text,
entries and places fit together in this sense (`Listed`): it is the text in front of a place, cut
into gaps and lexemes, each with an entry. What `tokenEntries` answers is such a listing of all of
the text or of the text in front of a place where nothing can be read.
-/

namespace ProtoSchema

open scoped Computability

/-! ## Lines and columns -/

namespace Position

/-- The place behind a text: the line feeds in it make the line, and what stands behind the last of
them makes the column. -/
def behind (text : List Char) : Position :=
  ⟨text.count '\n' + 1, (text.reverse.takeWhile (· ≠ '\n')).length + 1⟩

/-- Stepping through a text leads to the place behind it. -/
theorem advance_start (text : List Char) : start.advance text = behind text := by
  induction text using List.reverseRecOn with
  | nil => rfl
  | append_singleton text c ih =>
    rw [advance_append, ih]
    by_cases hc : c = '\n'
    · simp [advance, next, behind, hc]
    · simp [advance, next, behind, hc]

theorem advance_behind (before text : List Char) :
    (behind before).advance text = behind (before ++ text) := by
  rw [← advance_start, ← advance_start, advance_append]

/-- Text in front of a place changes it. -/
theorem eq_nil_of_behind_append {before text : List Char}
    (h : behind (before ++ text) = behind before) : text = [] := by
  have hlines : (before ++ text).count '\n' = before.count '\n' := by
    simpa [behind] using congrArg line h
  have hnone : '\n' ∉ text := by
    rw [← List.count_eq_zero]
    rw [List.count_append] at hlines
    omega
  have hcolumns := congrArg column h
  have hall : ∀ c ∈ text.reverse, decide (c ≠ '\n') = true := by
    intro c hc
    refine decide_eq_true ?_
    rintro rfl
    exact hnone (List.mem_reverse.mp hc)
  simp only [behind, List.reverse_append, List.takeWhile_append_of_pos hall, List.length_append,
    List.length_reverse] at hcolumns
  exact List.length_eq_zero_iff.mp (by omega)

/-- A line and a column tell one place of a text. -/
theorem behind_injOn_prefixes {text l m : List Char} (hl : l <+: text) (hm : m <+: text)
    (h : behind l = behind m) : l = m := by
  rcases List.prefix_or_prefix_of_prefix hl hm with ⟨rest, rfl⟩ | ⟨rest, rfl⟩
  · rw [eq_nil_of_behind_append h.symm, List.append_nil]
  · rw [eq_nil_of_behind_append h, List.append_nil]

end Position

/-- At a place of a text there is a word. -/
def Stands (text : List Char) (p : Position) (word : List Char) : Prop :=
  ∃ before rest, text = before ++ word ++ rest ∧ p = .behind before

namespace Stands

variable {text word rest : List Char} {p : Position}

theorem append (h : Stands text p word) (rest : List Char) : Stands (text ++ rest) p word := by
  obtain ⟨before, behind, rfl, hp⟩ := h
  exact ⟨before, behind ++ rest, by simp, hp⟩

/-- Two words at one place: one of them opens the other. -/
theorem prefix_or_prefix {word' : List Char} (h : Stands text p word) (h' : Stands text p word') :
    word <+: word' ∨ word' <+: word := by
  obtain ⟨before, rest, htext, hp⟩ := h
  obtain ⟨before', rest', htext', hp'⟩ := h'
  have hbefore : before <+: text := ⟨word ++ rest, by rw [htext, List.append_assoc]⟩
  have hbefore' : before' <+: text := ⟨word' ++ rest', by rw [htext', List.append_assoc]⟩
  obtain rfl := Position.behind_injOn_prefixes hbefore hbefore' (hp.symm.trans hp')
  have hsame : word ++ rest = word' ++ rest' := by
    rw [htext, List.append_assoc, List.append_assoc] at htext'
    exact List.append_cancel_left htext'
  exact List.prefix_or_prefix_of_prefix ⟨rest, rfl⟩ ⟨rest', hsame.symm⟩

end Stands

/-! ## Listings -/

/-- These entries list the tokens of a text: the text is a gap, or a text that is listed already, a
lexeme whose entry comes last, and a gap. -/
inductive Listed : List Char → List TokenEntry → Prop
  | gap {gap : List Char} (hgap : gap ∈ Lexeme.gaps) : Listed gap []
  | token {before lexeme gap : List Char} {entries : List TokenEntry} (t : Terminal)
      (hbefore : Listed before entries) (hlexeme : lexeme ∈ t.language)
      (hgap : gap ∈ Lexeme.gaps) :
      Listed (before ++ lexeme ++ gap) (entries ++ [⟨t.kind, .ofList lexeme, .behind before⟩])

/-- Gaps one behind the other are a gap. -/
theorem Lexeme.append_mem_gaps {gap gap' : List Char} (h : gap ∈ gaps) (h' : gap' ∈ gaps) :
    gap ++ gap' ∈ gaps := by
  have hmul := Language.append_mem_mul h h'
  rwa [gaps, kstar_mul_kstar] at hmul

namespace Listed

variable {before text gap : List Char} {entries : List TokenEntry}

theorem append_gap (h : Listed before entries) (hgap : gap ∈ Lexeme.gaps) :
    Listed (before ++ gap) entries := by
  cases h with
  | gap hfirst => exact .gap (Lexeme.append_mem_gaps hfirst hgap)
  | token t hbefore hlexeme hlast =>
    rw [List.append_assoc _ _ gap]
    exact .token t hbefore hlexeme (Lexeme.append_mem_gaps hlast hgap)

/-- A layout continues a listing. -/
theorem append_layout {tokens : List Token} (h : Listed before entries)
    (hlayout : Layout (.behind before) text tokens) :
    Listed (before ++ text) (entries ++ tokens.map Token.entry) := by
  generalize hp : Position.behind before = p at hlayout
  induction hlayout generalizing before entries with
  | nil hgap =>
    rw [List.map_nil, List.append_nil]
    exact h.append_gap hgap
  | @cons p gap rest t ts hgap hplace hlexeme _ ih =>
    subst hp
    rw [Position.advance_behind] at hplace
    have htoken := Listed.token t.terminal (h.append_gap hgap) hlexeme (Language.nil_mem_kstar _)
    rw [List.append_nil, ← hplace] at htoken
    have hrest := ih htoken (by rw [hplace, Position.advance_behind])
    simpa [Token.entry, Token.text] using hrest

/-- The entries of a listing stand in the text and have a text. -/
theorem stands (h : Listed text entries) :
    ∀ e ∈ entries, e.kind ≠ .eof ∧ e.text ≠ "" ∧ Stands text e.position e.text.toList := by
  induction h with
  | gap => simp
  | @token before lexeme gap entries t hbefore hlexeme hgap ih =>
    intro e he
    rcases List.mem_append.mp he with he | he
    · obtain ⟨hkind, htext, hstands⟩ := ih e he
      exact ⟨hkind, htext, (hstands.append lexeme).append gap⟩
    · obtain rfl := List.mem_singleton.mp he
      have hne : lexeme ≠ [] := fun hnil => t.nil_notMem_language (hnil ▸ hlexeme)
      refine ⟨by cases t <;> simp [Terminal.kind], by simpa using hne, before, gap, ?_, rfl⟩
      rw [String.toList_ofList]

/-- Every entry of a listing ends at or before the end of the text. -/
theorem advance_le (h : Listed text entries) :
    ∀ e ∈ entries, e.position.advance e.text.toList ≤ .behind text := by
  intro e he
  obtain ⟨-, -, before, rest, rfl, hplace⟩ := h.stands e he
  rw [hplace, Position.advance_behind, ← Position.advance_behind _ rest]
  exact Position.le_advance _ rest

/-- The entries of a listing lie one behind the other. -/
theorem pairwise (h : Listed text entries) :
    entries.Pairwise fun e e' => e.position.advance e.text.toList ≤ e'.position := by
  induction h with
  | gap => exact .nil
  | token t hbefore _ _ ih =>
    refine List.pairwise_append.mpr ⟨ih, List.pairwise_singleton _ _, fun e he e' he' => ?_⟩
    obtain rfl := List.mem_singleton.mp he'
    exact hbefore.advance_le e he

end Listed

/-! ## Layouts within a text -/

namespace Layout

variable {p : Position} {text : List Char} {tokens more : List Token}

/-- What tokens lay out is cut where the tokens are. -/
theorem exists_append (h : Layout p text (tokens ++ more)) :
    ∃ l rest, text = l ++ rest ∧ Layout p l tokens ∧ Layout (p.advance l) rest more := by
  induction tokens generalizing p text with
  | nil => exact ⟨[], text, rfl, .nil (Language.nil_mem_kstar _), h⟩
  | cons t tokens ih =>
    cases h with
    | @cons _ gap behind _ _ hgap hplace hlexeme hrest =>
      obtain ⟨l, rest, rfl, htokens, hmore⟩ := ih hrest
      refine ⟨gap ++ t.lexeme ++ l, rest, by simp, .cons hgap hplace hlexeme htokens, ?_⟩
      rwa [Position.advance_append, Position.advance_append, ← hplace]

/-- Tokens that stand one behind the other lay out a part of the text. -/
theorem exists_infix (h : Layout .start text tokens) (hmore : more <:+: tokens) :
    ∃ before l rest, text = before ++ l ++ rest ∧ Layout (.behind before) l more := by
  obtain ⟨front, back, rfl⟩ := hmore
  obtain ⟨l, rest, rfl, hl, -⟩ := h.exists_append
  obtain ⟨before, l, rfl, -, hmore⟩ := hl.exists_append
  rw [Position.advance_start] at hmore
  exact ⟨before, l, rest, rfl, hmore⟩

/-- Every token stands in the text at its place. -/
theorem stands (h : Layout .start text tokens) : ∀ t ∈ tokens, Stands text t.position t.lexeme := by
  intro t ht
  have hlisted : Listed text (tokens.map Token.entry) :=
    (Listed.gap (Language.nil_mem_kstar _)).append_layout h
  have hstands := (hlisted.stands _ (List.mem_map_of_mem ht)).2.2
  rwa [Token.entry, Token.text, String.toList_ofList] at hstands

end Layout

/-! ## Where nothing can be read -/

namespace Lexer

/-- Where all terminals are accepted, something is read in front of any lexeme. -/
theorem exists_lexed?_of_language {t : Terminal} {l : List Char} (h : l ∈ t.language)
    (rest : List Char) : ∃ m, lexed? (fun _ => true) (l ++ rest) = some m := by
  cases t with
  | name =>
    obtain ⟨c, cs, rfl, hc, -⟩ := Lexeme.exists_of_mem_names h
    exact exists_lexed?_of_part (.inl (Lexeme.isNamePart_of_isNameStart hc)) _
  | int =>
    obtain ⟨c, cs, rfl, -⟩ := Lexeme.exists_first h
    exact exists_lexed?_of_part
      (.inl (Lexeme.isNamePart_of_integers h c List.mem_cons_self)) _
  | float =>
    obtain ⟨before, hbefore, h⟩ := Lexeme.exists_of_mem_floats h
    have hdigit {d : Char} {ds : List Char} (hd : d.isDigit = true) :
        ∃ m, lexed? (fun _ => true) (d :: ds) = some m :=
      exists_lexed?_of_part (.inl (Lexeme.isNamePart_of_isDigit hd)) _
    cases before with
    | nil =>
      obtain ⟨behind, e, rfl, -⟩ | ⟨e, -, -, hne⟩ := h
      · exact exists_lexed?_of_part (.inr rfl) _
      · exact absurd rfl hne
    | cons d before =>
      have hd := hbefore d List.mem_cons_self
      obtain ⟨behind, e, rfl, -⟩ | ⟨e, -, rfl, -⟩ := h <;> exact hdigit hd
  | string =>
    have hstring : lexed? (· = .string) (l ++ rest) = some (.string, l) := by
      rw [lexed?, ofClass?_of_some (by decide) (Lexeme.string?_append h)]
      rfl
    exact (exists_cut hstring).imp fun _ hm => hm.1
  | keyword k =>
    obtain rfl : l = k.spelling.toList := h
    obtain ⟨c, cs, heq, hc, -⟩ := Lexeme.exists_of_mem_names k.spelling_mem_names
    rw [heq]
    exact exists_lexed?_of_part (.inl (Lexeme.isNamePart_of_isNameStart hc)) _
  | mark m =>
    obtain rfl : l = [m.character] := h
    have hmark : lexed? (· = .mark m) (m.character :: rest) = some (.mark m, [m.character]) := by
      cases m <;> rfl
    exact (exists_cut hmark).imp fun _ hm => hm.1

end Lexer

namespace Lexeme

theorem exists_blockRest? (body rest : List Char) :
    ∃ l, blockRest? (body ++ '*' :: '/' :: rest) = some l := by
  induction body with
  | nil => exact ⟨_, rfl⟩
  | cons c body ih =>
    obtain ⟨l, hl⟩ := ih
    rw [List.cons_append, blockRest?.eq_def]
    split
    · next heq => cases heq
    · exact ⟨_, rfl⟩
    · next heq =>
      obtain ⟨rfl, rfl⟩ := List.cons.inj heq
      exact ⟨_, by rw [hl]; rfl⟩

/-- Blanks or a comment are read in front of any. -/
theorem exists_blank? {l : List Char} (h : l ∈ blanks + lineComments + blockComments)
    (rest : List Char) : ∃ m, blank? (l ++ rest) = some m := by
  rcases h with (h | h) | h
  · obtain ⟨_, ⟨c, hc, rfl⟩, cs, -, rfl⟩ := Language.mem_mul.mp h
    have hblank : isBlank c = true := by
      simp only [List.mem_cons, List.not_mem_nil, or_false] at hc
      simpa [isBlank] using hc
    refine ⟨c :: (cs ++ rest).takeWhile isBlank, ?_⟩
    rw [List.append_assoc, List.singleton_append, blank?, if_pos hblank]
    · rintro cs rfl
      cases hblank
    · rintro cs rfl
      cases hblank
  · obtain ⟨_, rfl, cs, -, rfl⟩ := Language.mem_mul.mp h
    exact ⟨_, rfl⟩
  · obtain ⟨_, hopening, _, rfl, rfl⟩ := Language.mem_mul.mp h
    obtain ⟨_, rfl, body, -, rfl⟩ := Language.mem_mul.mp hopening
    obtain ⟨m, hm⟩ := exists_blockRest? body rest
    refine ⟨'/' :: '*' :: m, ?_⟩
    have hrest : ['/', '*'] ++ body ++ ['*', '/'] ++ rest =
        '/' :: '*' :: (body ++ '*' :: '/' :: rest) := by simp
    rw [hrest, blank?, hm]
    rfl

/-- No lexeme, no blanks and no comment open the text. -/
def Barren (text : List Char) : Prop :=
  ∀ l, l <+: text → (∀ t : Terminal, l ∉ t.language) ∧ l ∉ blanks + lineComments + blockComments

theorem barren_of_none {text : List Char} (hlexed : Lexer.lexed? (fun _ => true) text = none)
    (hblank : blank? text = none) : Barren text := by
  rintro l ⟨rest, rfl⟩
  constructor
  · intro t ht
    obtain ⟨m, hm⟩ := Lexer.exists_lexed?_of_language ht rest
    cases hm.symm.trans hlexed
  · intro hl
    obtain ⟨m, hm⟩ := exists_blank? hl rest
    cases hm.symm.trans hblank

end Lexeme

/-! ## What a lexer leaves behind it -/

namespace Lexer

variable {c : Cursor}

/-- A lexer lays out the text up to a cursor, which is at the end of the text or at a place where
it reads nothing. -/
theorem exists_layout (c : Cursor) :
    ∃ read tokens last, c.rest = read ++ Cursor.rest last ∧
      last.position = c.position.advance read ∧ Layout c.position read tokens ∧
      (tokensFrom c = .ok tokens ∧ last.rest = [] ∨
        tokensFrom c = .error (faultAt last) ∧ last.rest ≠ [] ∧ Lexeme.Barren last.rest) := by
  fun_induction tokensFrom c with
  | case1 c t behind hnext hlt ih =>
    obtain ⟨gap, hgap, hskipped, hplace⟩ := c.exists_gap_skipBlanks
    obtain ⟨hlexed, hposition, rfl⟩ := exists_of_next_token hnext
    obtain ⟨tail, htail⟩ := (lexed?_opens hlexed).1
    obtain ⟨read, tokens, last, hrest, hlast, hlayout, hend⟩ := ih
    have hafter : (c.skipBlanks.after t.lexeme).rest = tail := by
      rw [Cursor.after, ← htail, List.drop_left]
    refine ⟨gap ++ t.lexeme ++ read, t :: tokens, last, ?_, ?_, ?_, ?_⟩
    · rw [hskipped, ← htail, ← hafter, hrest]
      simp
    · rw [hlast, Position.advance_append, Position.advance_append, ← hplace]
      rfl
    · refine .cons hgap (hposition.trans hplace) (mem_language_of_lexed? hlexed) ?_
      rw [hposition]
      exact hlayout
    · rcases hend with ⟨hok, hnil⟩ | ⟨herror, hbarren⟩
      · exact .inl ⟨by rw [hok]; rfl, hnil⟩
      · exact .inr ⟨by rw [herror]; rfl, hbarren⟩
  | case2 c last hnext =>
    obtain ⟨gap, hgap, hskipped, hplace⟩ := c.exists_gap_skipBlanks
    obtain ⟨rfl, hnil⟩ := eq_of_next_finished hnext
    exact ⟨gap, [], c.skipBlanks, hskipped, hplace, .nil hgap, .inl ⟨rfl, hnil⟩⟩
  | case3 c last hnext =>
    obtain ⟨gap, hgap, hskipped, hplace⟩ := c.exists_gap_skipBlanks
    obtain ⟨rfl, hne⟩ := eq_of_next_stuck hnext
    refine ⟨gap, [], c.skipBlanks, hskipped, hplace, .nil hgap, .inr ⟨rfl, hne, ?_⟩⟩
    refine Lexeme.barren_of_none ?_ c.blank?_skipBlanks
    cases hlexed : lexed? (fun _ => true) c.skipBlanks.rest with
    | none => rfl
    | some l => cases hnext.symm.trans (next_of_lexed? hlexed)

/-- The fault of a place where something is left. -/
theorem faultAt_cons (ch : Char) (rest : List Char) (p : Position) :
    faultAt ⟨ch :: rest, p⟩ =
      ⟨if ch = '"' ∨ ch = '\'' then .unterminatedString else .illegalCharacter ch, p⟩ := by
  unfold faultAt
  split
  · next heq => rw [(List.cons.inj heq).1, if_pos (.inl rfl)]
  · next heq => rw [(List.cons.inj heq).1, if_pos (.inr rfl)]
  · next hdouble hsingle heq =>
    obtain ⟨rfl, rfl⟩ := List.cons.inj heq
    rw [if_neg]
    rintro (rfl | rfl)
    · exact hdouble rfl
    · exact hsingle rfl
  · next heq => cases heq

end Lexer

/-- Nothing of a text is lost, and every place is exact. The entries of a listing, without the last
one, are those of the tokens of the text, one behind the other and each at its place, with nothing
but blanks and comments around them; the last one is at the end of the text. If there is no listing,
the fault is at a place where nothing can be read, and the text in front of it is listed. -/
theorem listed_of_tokenEntries (text : List Char) :
    match tokenEntries text with
    | .ok entries => ∃ tokens, entries = tokens ++ [⟨.eof, "", .behind text⟩] ∧
        Listed text tokens ∧
        (∀ e ∈ tokens, e.kind ≠ .eof ∧ e.text ≠ "" ∧ Stands text e.position e.text.toList) ∧
        tokens.Pairwise fun e e' => e.position.advance e.text.toList ≤ e'.position
    | .error fault => ∃ before c rest tokens, text = before ++ c :: rest ∧
        fault = ⟨if c = '"' ∨ c = '\'' then .unterminatedString else .illegalCharacter c,
          .behind before⟩ ∧
        Listed before tokens ∧ Lexeme.Barren (c :: rest) := by
  obtain ⟨read, tokens, last, hrest, hlast, hlayout, hend⟩ := Lexer.exists_layout (.ofText text)
  have hlisted : Listed read (tokens.map Token.entry) :=
    (Listed.gap (Language.nil_mem_kstar _)).append_layout hlayout
  have hplace : last.position = .behind read := hlast.trans (Position.advance_start read)
  have htext : text = read ++ last.rest := hrest
  rcases hend with ⟨hok, hnil⟩ | ⟨herror, hne, hbarren⟩
  · rw [hnil, List.append_nil] at htext
    subst htext
    rw [tokenEntries, tokenize, hok, Position.advance_start]
    exact ⟨_, rfl, hlisted, hlisted.stands, hlisted.pairwise⟩
  · rw [tokenEntries, tokenize, herror]
    obtain ⟨remaining, place⟩ := last
    obtain ⟨c, rest, rfl⟩ := List.exists_cons_of_ne_nil hne
    refine ⟨read, c, rest, tokens.map Token.entry, htext, ?_, hlisted, hbarren⟩
    rw [Lexer.faultAt_cons]
    exact congrArg _ hplace

end ProtoSchema
