import ProtoSchema.Proofs.Token.Exchange

/-!
# Scans of a text

The tokens that a lexer finds one after the other, where the terminals that it may find depend on a
state that each token changes. A scan of the text in front of a word is a scan of the same text in
front of another word (`Lexer.Scans.exchange`), since a word is apart from what stands in front of
it (`Lexer.Scans.ended`); and a scan does not depend on where its text starts
(`Lexer.Scans.moved`).
-/

namespace ProtoSchema

namespace Lexeme

variable {v v₁ x x' l : List Char}

/-- A text that opens with a word. -/
def Wordy (x : List Char) : Prop := ∃ c cs, x = c :: cs ∧ isNameStart c = true

theorem Wordy.append (h : Wordy x) (l : List Char) : Wordy (x ++ l) := by
  obtain ⟨c, cs, rfl, hc⟩ := h
  exact ⟨c, cs ++ l, rfl, hc⟩

theorem wordy_of_names (h : l ∈ names) : Wordy l := by
  obtain ⟨c, cs, rfl, hc, -⟩ := exists_of_mem_names h
  exact ⟨c, cs, rfl, hc⟩

theorem Wordy.digitless (h : Wordy x) : Digitless x := by
  obtain ⟨c, cs, rfl, hc⟩ := h
  rintro d hd
  obtain rfl := Option.some.inj hd
  exact (ne_of_isNameStart hc).1

/-- A word is no blank and opens no comment. -/
theorem Wordy.head (h : Wordy x) : ∀ c ∈ x.head?, isBlank c = false ∧ c ≠ '/' ∧ c ≠ '*' := by
  obtain ⟨c, cs, rfl, hc⟩ := h
  rintro d hd
  obtain rfl := Option.some.inj hd
  have hopening : isOpening c = true := by simp [isOpening, hc]
  refine ⟨(not_isBlank_of_opening hopening).1, (not_isBlank_of_opening hopening).2, ?_⟩
  rintro rfl
  cases hc

theorem Wordy.blank? (h : Wordy x) : Lexeme.blank? x = none := by
  obtain ⟨c, cs, rfl, hc⟩ := h
  obtain ⟨hblank, hslash, -⟩ := Wordy.head ⟨c, cs, rfl, hc⟩ c rfl
  exact blank?_eq_none hblank hslash

/-! ## Blanks in front of a word -/

/-- Where a run of characters ends in front of a text, it ends in front of any other text that goes
on in the same way or opens with a word as well. -/
theorem head?_exchange {p : Char → Bool} (hx : Wordy x) (hx' : Wordy x')
    (hp : ∀ c, isNameStart c = true → p c = p '_') (h : ∀ c ∈ (v ++ x).head?, p c = false) :
    ∀ c ∈ (v ++ x').head?, p c = false := by
  cases v with
  | cons d ds => exact h
  | nil =>
    obtain ⟨c, cs, rfl, hc⟩ := hx
    obtain ⟨c', cs', rfl, hc'⟩ := hx'
    rintro d hd
    obtain rfl := Option.some.inj hd
    rw [hp _ hc', ← hp _ hc]
    exact h c rfl

theorem head?_of_takeWhile {p : Char → Bool} (h : (l ++ x).takeWhile p = l) :
    (∀ c ∈ l, p c = true) ∧ ∀ c ∈ x.head?, p c = false := by
  have hl : ∀ c ∈ l, p c = true := fun c hc => List.mem_takeWhile_imp (h ▸ hc)
  refine ⟨hl, fun c hc => ?_⟩
  rw [List.takeWhile_append_of_pos hl] at h
  obtain ⟨cs, rfl⟩ : ∃ cs, x = c :: cs := ⟨x.tail, (List.cons_head?_tail hc).symm⟩
  rw [Bool.eq_false_iff]
  intro hpc
  rw [List.takeWhile_cons_of_pos hpc] at h
  simp at h

theorem exists_of_blockRest? (h : blockRest? x = some l) : ∃ body, l = body ++ ['*', '/'] := by
  obtain ⟨body, -, _, rfl, rfl⟩ := Language.mem_mul.mp (mem_of_blockRest? h)
  exact ⟨body, rfl⟩

/-- The end of a block comment does not depend on what follows it. -/
theorem blockRest?_exchange (h : blockRest? (l ++ x) = some l) (x' : List Char) :
    blockRest? (l ++ x') = some l := by
  induction l with
  | nil =>
    obtain ⟨body, hbody⟩ := exists_of_blockRest? h
    simp at hbody
  | cons c l ih =>
    rw [List.cons_append] at h ⊢
    unfold blockRest? at h
    split at h
    · cases h
    · obtain ⟨rfl, rfl⟩ := List.cons.inj (Option.some.inj h)
      rfl
    · next c' cs hopen heq =>
      obtain ⟨rfl, rfl⟩ := List.cons.inj heq
      obtain ⟨m, hm, hcons⟩ := Option.map_eq_some_iff.mp h
      obtain rfl := (List.cons.inj hcons).2
      obtain ⟨body, hbody⟩ := exists_of_blockRest? hm
      obtain ⟨d, ds, rfl⟩ : ∃ d ds, m = d :: ds := List.exists_cons_of_ne_nil (by simp [hbody])
      rw [blockRest?, ih hm]
      · rfl
      · rintro rest rfl hrest
        obtain rfl := (List.cons.inj hrest).1
        exact hopen _ rfl rfl

/-- What is skipped in a text that goes on with a word is skipped in front of another word. -/
theorem blank?_exchange (hx : Wordy x) (hx' : Wordy x') (h : blank? (l ++ (v ++ x)) = some l) :
    blank? (l ++ (v ++ x')) = some l := by
  have hne := (blank?_opens h).2
  have hbreak : ∀ c, isNameStart c = true → decide (c ≠ '\n') = decide ('_' ≠ '\n') := by
    intro c hc
    have : c ≠ '\n' := by rintro rfl; cases hc
    simp [this]
  have hblank : ∀ c, isNameStart c = true → isBlank c = isBlank '_' := by
    intro c hc
    exact (Wordy.head ⟨c, [], rfl, hc⟩ c rfl).1
  unfold blank? at h
  split at h
  · next cs heq =>
    obtain ⟨m, rfl⟩ : ∃ m, l = '/' :: '/' :: m := ⟨_, (Option.some.inj h).symm⟩
    obtain rfl : m ++ (v ++ x) = cs := by simpa using heq
    have hm : (m ++ (v ++ x)).takeWhile (fun c => decide (c ≠ '\n')) = m := by simpa using h
    obtain ⟨hall, hend⟩ := head?_of_takeWhile hm
    simp only [List.cons_append, blank?,
      takeWhile_append hall (head?_exchange hx hx' hbreak hend)]
  · next cs heq =>
    obtain ⟨m, hm, rfl⟩ := Option.map_eq_some_iff.mp h
    obtain rfl : m ++ (v ++ x) = cs := by simpa using heq
    simp only [List.cons_append, blank?, blockRest?_exchange hm, Option.map_some]
  · next c cs hline hblock heq =>
    obtain ⟨d, m, rfl⟩ := List.exists_cons_of_ne_nil hne
    obtain ⟨rfl, rfl⟩ := List.cons.inj heq
    split at h
    · next hd =>
      have hm : (m ++ (v ++ x)).takeWhile isBlank = m := by simpa using h
      obtain ⟨hall, hend⟩ := head?_of_takeWhile hm
      rw [List.cons_append, blank?, if_pos hd,
        takeWhile_append hall (head?_exchange hx hx' hblank hend)]
      all_goals
        rintro rest rfl
        cases hd
    · cases h
  · cases h

/-- What is skipped right in front of a word ends apart from it. -/
theorem ended_of_blank? (hx : Wordy x) (h : blank? (l ++ x) = some l) : Ended l := by
  have hne := (blank?_opens h).2
  unfold blank? at h
  split at h
  · next cs heq =>
    -- the word would belong to the line of the comment
    obtain ⟨m, rfl⟩ : ∃ m, l = '/' :: '/' :: m := ⟨_, (Option.some.inj h).symm⟩
    obtain rfl : m ++ x = cs := by simpa using heq
    have hm : (m ++ x).takeWhile (fun c => decide (c ≠ '\n')) = m := by simpa using h
    obtain ⟨c, cs, rfl, hc⟩ := hx
    have hbreak : c = '\n' := by simpa using (head?_of_takeWhile hm).2 c rfl
    subst hbreak
    cases hc
  · obtain ⟨m, hm, rfl⟩ := Option.map_eq_some_iff.mp h
    obtain ⟨body, rfl⟩ := exists_of_blockRest? hm
    exact ⟨'/' :: '*' :: (body ++ ['*']), '/', by simp, by decide⟩
  · next c cs hline hblock heq =>
    split at h
    · next hc =>
      have hall : ∀ d ∈ l, isBlank d = true := by
        rw [← Option.some.inj h]
        exact List.forall_mem_cons.mpr ⟨hc, fun d hd => List.mem_takeWhile_imp hd⟩
      obtain ⟨w, d, rfl⟩ := List.eq_nil_or_concat' l |>.resolve_left hne
      refine ⟨w, d, rfl, ?_⟩
      have hd := hall d (by simp)
      simp only [isBlank, decide_eq_true_eq] at hd
      rcases hd with rfl | rfl | rfl | rfl | rfl <;> decide
    · cases h
  · cases h

end Lexeme

namespace Cursor

open Lexeme

variable {c : Cursor} {u v x x' : List Char}

theorem rest_skipBlanks_suffix (c : Cursor) : c.skipBlanks.rest <:+ c.rest := by
  obtain ⟨gap, -, hrest, -⟩ := c.exists_gap_skipBlanks
  exact ⟨gap, hrest.symm⟩

/-- Of what is left behind a blank, the front belongs to what stands in front of a word. -/
theorem exists_rest_after {l : List Char} (hc : c.rest = v ++ x) (hl : l <+: c.rest)
    (hrest : (c.after l).skipBlanks.rest = u ++ x) :
    ∃ w, v = l ++ w ∧ (c.after l).rest = w ++ x := by
  obtain ⟨tail, htail⟩ := hl
  have hafter : (c.after l).rest = tail := by rw [after, ← htail, List.drop_left]
  obtain ⟨gap, hgap⟩ := (c.after l).rest_skipBlanks_suffix
  rw [hafter, hrest, ← List.append_assoc] at hgap
  subst hgap
  refine ⟨gap ++ u, ?_, hafter⟩
  rw [hc, ← List.append_assoc] at htail
  exact (List.append_cancel_right htail).symm

/-- The blanks in front of a word, and those further in front, are skipped in front of another
word as well. -/
theorem skipBlanks_exchange (hx : Wordy x) (hx' : Wordy x') (hc : c.rest = v ++ x)
    (hrest : c.skipBlanks.rest = u ++ x) (hend : Lexeme.blank? (u ++ x') = none) :
    skipBlanks ⟨v ++ x', c.position⟩ = ⟨u ++ x', c.skipBlanks.position⟩ := by
  fun_induction skipBlanks c generalizing v with
  | case1 c l hl hlt ih =>
    obtain ⟨w, rfl, hafter⟩ := exists_rest_after hc (Lexeme.blank?_opens hl).1 hrest
    rw [hc, List.append_assoc] at hl
    have hblank : Lexeme.blank? (Cursor.mk (l ++ w ++ x') c.position).rest = some l := by
      rw [List.append_assoc]
      exact blank?_exchange hx hx' hl
    have hbehind : (Cursor.mk (l ++ w ++ x') c.position).after l =
        ⟨w ++ x', (c.after l).position⟩ := by
      rw [after, List.append_assoc, List.drop_left]
      rfl
    rw [skipBlanks_of_some hblank, hbehind]
    exact ih hafter hrest
  | case2 c hnone =>
    obtain rfl := List.append_cancel_right (hc.symm.trans hrest)
    exact skipBlanks_of_none hend

/-- Blanks in front of a word end apart from it. -/
theorem ended_of_skipBlanks (hx : Wordy x) (hc : c.rest = v ++ x) (hrest : c.skipBlanks.rest = x)
    (hv : v ≠ []) : Ended v := by
  fun_induction skipBlanks c generalizing v with
  | case1 c l hl hlt ih =>
    obtain ⟨w, rfl, hafter⟩ :=
      exists_rest_after (u := []) hc (Lexeme.blank?_opens hl).1 hrest
    by_cases hw : w = []
    · subst hw
      rw [List.append_nil] at hc ⊢
      exact ended_of_blank? hx (hc ▸ hl)
    · exact (ih hafter hrest hw).append l
  | case2 c hnone =>
    rw [hrest] at hc
    exact absurd (List.append_left_eq_self.mp hc.symm) hv

/-- What is skipped does not depend on where the text starts. -/
theorem exists_skipBlanks (cs : List Char) : ∃ gap rest, cs = gap ++ rest ∧
    ∀ p, skipBlanks ⟨cs, p⟩ = ⟨rest, p.advance gap⟩ := by
  cases hl : Lexeme.blank? cs with
  | none => exact ⟨[], cs, rfl, fun p => skipBlanks_of_none hl⟩
  | some l =>
    have hlt := (Lexeme.blank?_opens hl).length_drop_lt
    obtain ⟨gap, rest, hrest, hskip⟩ := exists_skipBlanks (cs.drop l.length)
    refine ⟨l ++ gap, rest, ?_, fun p => ?_⟩
    · rw [List.append_assoc, ← hrest]
      exact (List.prefix_iff_eq_append.mp (Lexeme.blank?_opens hl).1).symm
    · rw [skipBlanks_of_some hl, after, hskip, Position.advance_append]
  termination_by cs.length
  decreasing_by exact hlt

end Cursor

namespace Lexer

open Lexeme

variable {accept : Terminal → Bool} {c behind : Cursor} {t : Token} {p q : Position}
  {g u v w x x' new post : List Char}

/-! ## One token -/

/-- A token lies behind a gap, and the rest of the text behind it. -/
theorem exists_of_next (h : next accept c = .token t behind) :
    c.skipBlanks.rest = t.lexeme ++ behind.rest ∧
      behind.position = t.position.advance t.lexeme := by
  obtain ⟨hlexed, hplace, rfl⟩ := exists_of_next_token h
  obtain ⟨tail, htail⟩ := (lexed?_opens hlexed).1
  rw [Cursor.after, ← htail, List.drop_left, hplace]
  exact ⟨rfl, rfl⟩

theorem suffix_of_next (h : next accept c = .token t behind) : behind.rest <:+ c.rest := by
  refine List.IsSuffix.trans ?_ c.rest_skipBlanks_suffix
  rw [(exists_of_next h).1]
  exact List.suffix_append _ _

/-- A token found behind a gap. -/
theorem next_eq {l : Lexed} (hskip : c.skipBlanks = ⟨l.2 ++ x, q⟩)
    (hlexed : lexed? accept (l.2 ++ x) = some l) :
    next accept c = .token ⟨l.1, l.2, q⟩ ⟨x, q.advance l.2⟩ := by
  have hrest : lexed? accept c.skipBlanks.rest = some l := by rwa [hskip]
  rw [next_of_lexed? hrest, hskip, Cursor.after, List.drop_left]

/-- A token is found wherever the text starts. -/
theorem next_moved (h : next accept c = .token t behind) : ∃ gap,
    t.position = c.position.advance gap ∧
      ∀ p, next accept ⟨c.rest, p⟩ =
        .token { t with position := p.advance gap }
          ⟨behind.rest, (p.advance gap).advance t.lexeme⟩ := by
  obtain ⟨hlexed, hplace, -⟩ := exists_of_next_token h
  have hrest := (exists_of_next h).1
  obtain ⟨gap, rest, -, hskip⟩ := Cursor.exists_skipBlanks c.rest
  have hc : c.skipBlanks = ⟨rest, c.position.advance gap⟩ := hskip c.position
  obtain rfl : rest = t.lexeme ++ behind.rest := by rw [← hrest, hc]
  rw [hrest] at hlexed
  exact ⟨gap, by rw [hplace, hc], fun p => next_eq (l := (t.terminal, t.lexeme)) (hskip p) hlexed⟩

/-- A token in front of a word is found in front of another word as well. -/
theorem next_exchange (hx : Wordy x) (hx' : Wordy x') (hv : Ended v)
    (h : next accept ⟨v ++ x, p⟩ = .token t ⟨w ++ x, q⟩)
    (hfloat : w = [] → t.terminal ≠ .float) :
    next accept ⟨v ++ x', p⟩ = .token t ⟨w ++ x', q⟩ := by
  obtain ⟨hlexed, hplace, -⟩ := exists_of_next_token h
  obtain ⟨hrest, hbehind⟩ := exists_of_next h
  rw [← List.append_assoc] at hrest
  obtain ⟨gap, hgap⟩ := (Cursor.mk (v ++ x) p).rest_skipBlanks_suffix
  rw [hrest, ← List.append_assoc] at hgap
  obtain rfl : gap ++ (t.lexeme ++ w) = v := List.append_cancel_right hgap
  have hne : t.lexeme ++ w ≠ [] :=
    List.append_ne_nil_of_left_ne_nil (lexed?_opens hlexed).2 w
  rw [hrest] at hlexed
  have hexchanged : lexed? accept (t.lexeme ++ w ++ x') = some (t.terminal, t.lexeme) := by
    refine lexed?_exchange (hv.of_append hne) hx.digitless hx'.digitless hlexed
      (List.prefix_append _ _) fun hwhole => hfloat ?_
    exact List.append_right_eq_self.mp hwhole.symm
  have hend : Lexeme.blank? (t.lexeme ++ w ++ x') = none := by
    rw [List.append_assoc]
    exact blank?_append (mem_language_of_lexed? hlexed) _
  have hskip : (Cursor.mk (gap ++ (t.lexeme ++ w) ++ x') p).skipBlanks =
      ⟨t.lexeme ++ (w ++ x'), t.position⟩ := by
    rw [hplace, ← List.append_assoc t.lexeme]
    exact Cursor.skipBlanks_exchange hx hx' rfl hrest hend
  have hplaced : q = t.position.advance t.lexeme := hbehind
  rw [List.append_assoc] at hexchanged
  rw [next_eq (l := (t.terminal, t.lexeme)) hskip hexchanged, hplaced]

end Lexer

/-- Keywords are spelled differently. -/
theorem Keyword.spelling_injective {k l : Keyword}
    (h : k.spelling.toList = l.spelling.toList) : k = l := by
  refine Option.some.inj ((ofSpelling?_spelling k).symm.trans ?_)
  rw [h, ofSpelling?_spelling]

/-- A token behind which a word has to stand apart: a mark, or a word that is read where names are
accepted. -/
def Token.Parts (accept : Terminal → Bool) (t : Token) : Prop :=
  (∃ m, t.terminal = .mark m) ∨ t.terminal.isWord = true ∧ accept .name = true

theorem Token.Parts.ne_float {accept : Terminal → Bool} {t : Token} (h : t.Parts accept) :
    t.terminal ≠ .float := by
  rcases h with ⟨m, hm⟩ | ⟨hword, -⟩
  · rw [hm]
    exact nofun
  · intro hfloat
    rw [hfloat] at hword
    cases hword

namespace Lexer

open Lexeme

variable {accept : Terminal → Bool} {c behind : Cursor} {t : Token} {p q : Position}
  {g u v w x x' new post : List Char}

/-- A word is read as a whole where names are accepted. -/
theorem word?_of_lexed? {cs : List Char} {l : Lexed} (h : lexed? accept cs = some l)
    (hword : l.1.isWord = true) (hname : accept .name = true) : word? accept cs = some l := by
  rcases lexed?_cases h with ⟨-, -, hl⟩ | ⟨-, -, -, hl⟩ | ⟨-, -, hl⟩ | ⟨-, hread⟩ | ⟨hnone, -⟩ |
    ⟨-, hread⟩
  · exact absurd hword (by simp [hl, Terminal.isWord])
  · exact absurd hword (by simp [hl, Terminal.isWord])
  · exact absurd hword (by simp [hl, Terminal.isWord])
  · exact hread
  · cases hname.symm.trans hnone
  · obtain ⟨m, _, -, rfl, -⟩ := mark?_cases hread
    cases hword

theorem eq_takeWhile_of_name? {cs : List Char} (h : name? cs = some w) :
    cs.takeWhile isNamePart = w := by
  unfold name? at h
  split at h
  · split at h
    · next hc =>
      rw [List.takeWhile_cons_of_pos (isNamePart_of_isNameStart hc)]
      exact Option.some.inj h
    · cases h
  · cases h

/-- A text in front of a word is ended if its last token parts it from the word. -/
theorem ended_of_next (hx : Wordy x) (h : next accept ⟨v ++ x, p⟩ = .token t ⟨g ++ x, q⟩)
    (hword : (Cursor.mk (g ++ x) q).skipBlanks.rest = x) (ht : t.Parts accept) : Ended v := by
  obtain ⟨hlexed, -, -⟩ := exists_of_next_token h
  have hrest := (exists_of_next h).1
  obtain ⟨gap, hgap⟩ := (Cursor.mk (v ++ x) p).rest_skipBlanks_suffix
  rw [hrest, ← List.append_assoc, ← List.append_assoc] at hgap
  obtain rfl : gap ++ t.lexeme ++ g = v := List.append_cancel_right hgap
  by_cases hg : g = []
  · subst hg
    rw [List.append_nil]
    refine Ended.append ?_ gap
    rw [hrest] at hlexed
    rcases ht with ⟨m, hm⟩ | ⟨hisWord, hname⟩
    · have hlexeme : t.lexeme ∈ (Terminal.mark m).language := hm ▸ mem_language_of_lexed? hlexed
      have hlexeme : t.lexeme = [m.character] := hlexeme
      exact ⟨[], m.character, hlexeme, by cases m <;> decide⟩
    · -- the word behind would belong to the token
      have hread := (word?_cases (word?_of_lexed? hlexed hisWord hname)).1
      obtain ⟨c, cs, rfl, hc⟩ := hx
      have hend := (head?_of_takeWhile (eq_takeWhile_of_name? hread)).2 c rfl
      cases (isNamePart_of_isNameStart hc).symm.trans hend
  · exact (Cursor.ended_of_skipBlanks hx rfl hword hg).append _

/-- What a word is read as where names are accepted: the accepted keyword that it spells, or a
name. -/
inductive ReadsAs (accept : Terminal → Bool) (word : List Char) : Terminal → Prop
  | keyword {k : Keyword} (haccept : accept (.keyword k) = true)
      (hspelling : k.spelling.toList = word) : ReadsAs accept word (.keyword k)
  | name (hrefuse : ∀ k : Keyword, k.spelling.toList = word → accept (.keyword k) = false) :
      ReadsAs accept word .name

/-- Each word is read as something. -/
theorem exists_readsAs (hnew : new ∈ names) (hpost : ∀ c ∈ post.head?, isNamePart c = false) :
    ∃ u, ReadsAs accept new u ∧ word? accept (new ++ post) = some (u, new) := by
  rw [word?, name?_append hnew hpost, Option.map_some]
  split
  · next k hk =>
    have hspelling : k.spelling.toList = new := by simpa using List.find?_some hk
    split
    · next haccept => exact ⟨_, .keyword haccept hspelling, rfl⟩
    · next haccept =>
      refine ⟨_, .name fun l hl => ?_, rfl⟩
      obtain rfl : l = k := Keyword.spelling_injective (hl.trans hspelling.symm)
      exact Bool.eq_false_iff.mpr haccept
  · next hk =>
    refine ⟨_, .name fun l hl => ?_, rfl⟩
    cases (Keyword.ofSpelling?_spelling l).symm.trans ((congrArg _ hl).trans hk)

/-- In the place of a word, where names are accepted, another word is read. -/
theorem next_word (ht : t.terminal.isWord = true) (hname : accept .name = true)
    (hnew : new ∈ names) (hpost : (Cursor.mk (g ++ (t.lexeme ++ post)) q).skipBlanks.rest =
      t.lexeme ++ post)
    (h : next accept ⟨g ++ (t.lexeme ++ post), q⟩ = .token t behind) : ∃ u,
    ReadsAs accept new u ∧ next accept ⟨g ++ (new ++ post), q⟩ =
      .token ⟨u, new, t.position⟩ ⟨post, t.position.advance new⟩ := by
  obtain ⟨hlexed, hplace, -⟩ := exists_of_next_token h
  rw [hpost] at hlexed
  have hread := (word?_cases (word?_of_lexed? hlexed ht hname)).1
  have hend := (head?_of_takeWhile (eq_takeWhile_of_name? hread)).2
  have hold : Wordy (t.lexeme ++ post) := exists_start_of_name? hread
  have hwordy : Wordy (new ++ post) := (wordy_of_names hnew).append post
  obtain ⟨u, hu, hword⟩ : ∃ u, ReadsAs accept new u ∧ word? accept (new ++ post) = some (u, new) :=
    exists_readsAs hnew hend
  have hskip : (Cursor.mk (g ++ (new ++ post)) q).skipBlanks = ⟨new ++ post, t.position⟩ := by
    rw [hplace]
    exact Cursor.skipBlanks_exchange (u := []) hold hwordy rfl hpost hwordy.blank?
  exact ⟨u, hu, next_eq (l := (u, new)) hskip (lexed?_of_word? hname hword)⟩

end Lexer

/-- Whether no other keyword opens with a keyword or opens it. -/
def Keyword.Solitary (k : Keyword) : Prop :=
  ∀ l : Keyword, k.spelling.toList <+: l.spelling.toList ∨
    l.spelling.toList <+: k.spelling.toList → l = k

namespace Lexer

open Lexeme

variable {accept accept' : Terminal → Bool} {c behind : Cursor} {t : Token} {p q : Position}
  {g u v w x x' new post : List Char}

theorem keyword?_solitary {k : Keyword} (hk : k.Solitary) (haccept : accept (.keyword k) = true)
    (x : List Char) :
    keyword? accept (k.spelling.toList ++ x) = some (.keyword k, k.spelling.toList) := by
  have hfits : (accept (.keyword k) && k.spelling.toList.isPrefixOf (k.spelling.toList ++ x)) =
      true := by
    rw [haccept, Bool.true_and, List.isPrefixOf_iff_prefix]
    exact List.prefix_append _ _
  have hsome : (Keyword.all.find? fun l => accept (.keyword l) &&
      l.spelling.toList.isPrefixOf (k.spelling.toList ++ x)).isSome :=
    List.find?_isSome.mpr ⟨k, k.mem_all, hfits⟩
  obtain ⟨first, hfirst⟩ := Option.isSome_iff_exists.mp hsome
  have hfound := List.find?_some hfirst
  rw [Bool.and_eq_true, List.isPrefixOf_iff_prefix] at hfound
  obtain rfl : first = k := hk first
    (List.prefix_or_prefix_of_prefix (List.prefix_append _ x) hfound.2)
  rw [keyword?, hfirst]
  rfl

/-- A keyword that is read in front of a word, where no names are accepted, is read in front of
another word as well. -/
theorem next_keyword {k : Keyword} (hk : k.Solitary) (ht : t.terminal = .keyword k)
    (hname : accept .name = false) (hword : (Cursor.mk (g ++ (t.lexeme ++ x)) p).skipBlanks.rest =
      t.lexeme ++ x)
    (h : next accept ⟨g ++ (t.lexeme ++ x), p⟩ = .token t ⟨x, q⟩) (x' : List Char) :
    next accept ⟨g ++ (t.lexeme ++ x'), p⟩ = .token t ⟨x', q⟩ := by
  obtain ⟨hlexed, hplace, -⟩ := exists_of_next_token h
  have hbehind : q = t.position.advance t.lexeme := (exists_of_next h).2
  have haccept : accept (.keyword k) = true := ht ▸ accept_of_lexed? hlexed
  have hspelling : t.lexeme ∈ (Terminal.keyword k).language := ht ▸ mem_language_of_lexed? hlexed
  have hlexeme : t.lexeme = k.spelling.toList := hspelling
  have hwordy : Wordy t.lexeme := hlexeme ▸ wordy_of_names k.spelling_mem_names
  have hskip : (Cursor.mk (g ++ (t.lexeme ++ x')) p).skipBlanks = ⟨t.lexeme ++ x', t.position⟩ := by
    rw [hplace]
    exact Cursor.skipBlanks_exchange (u := []) (hwordy.append x) (hwordy.append x') rfl hword
      (hwordy.append x').blank?
  have hread : lexed? accept (t.lexeme ++ x') = some (t.terminal, t.lexeme) := by
    rw [ht, hlexeme]
    exact lexed?_of_keyword? hname (keyword?_solitary hk haccept x')
  rw [next_eq (l := (t.terminal, t.lexeme)) hskip hread, hbehind]

/-- A mark that opens no number is found wherever it is accepted. -/
theorem next_mark {m : Mark} (hm : m ≠ .dot) (ht : t.terminal = .mark m)
    (h : next accept c = .token t behind) (haccept : accept' (.mark m) = true) :
    next accept' c = .token t behind := by
  obtain ⟨hlexed, hplace, hbehind⟩ := exists_of_next_token h
  have hspelling : t.lexeme ∈ (Terminal.mark m).language := ht ▸ mem_language_of_lexed? hlexed
  have hlexeme : t.lexeme = [m.character] := hspelling
  obtain ⟨rest, hrest⟩ : ∃ rest, c.skipBlanks.rest = m.character :: rest := by
    obtain ⟨rest, hrest⟩ := (lexed?_opens hlexed).1
    exact ⟨rest, by rw [← hrest, hlexeme, List.singleton_append]⟩
  have hfloat : float? (m.character :: rest) = none := by
    refine float?_eq_none ?_ ?_ <;> cases m <;> first | decide | exact absurd rfl hm
  have hmark : mark? accept' (m.character :: rest) = some (.mark m, [m.character]) :=
    mark?_character haccept
  have hread := lexed?_of_mark? (.inr hfloat) hmark
  rw [← hrest, ← hlexeme, ← ht] at hread
  rw [next_of_lexed? hread, hbehind, ← hplace]

/-! ## Many tokens -/

/-- The tokens that are found one after the other, with the states behind them: which terminals are
accepted depends on the state behind the token in front. -/
inductive Scans (accepts : Nat → Terminal → Bool) :
    Nat → Cursor → List Token → List Nat → Cursor → Prop
  | nil {i : Nat} {c : Cursor} : Scans accepts i c [] [] c
  | cons {i j : Nat} {c behind last : Cursor} {t : Token} {ts : List Token} {js : List Nat}
      (hnext : next (accepts i) c = .token t behind) (hrest : Scans accepts j behind ts js last) :
      Scans accepts i c (t :: ts) (j :: js) last

namespace Scans

variable {accepts : Nat → Terminal → Bool} {i j : Nat} {c last : Cursor} {t : Token}
  {ts us : List Token} {js ks : List Nat}

theorem suffix (h : Scans accepts i c ts js last) : last.rest <:+ c.rest := by
  induction h with
  | nil => exact List.suffix_refl _
  | cons hnext _ ih => exact ih.trans (suffix_of_next hnext)

theorem append {middle : Cursor} (h : Scans accepts i c ts js middle)
    (h' : Scans accepts (js.getLastD i) middle us ks last) :
    Scans accepts i c (ts ++ us) (js ++ ks) last := by
  induction h with
  | nil => exact h'
  | cons hnext _ ih =>
    rw [List.getLastD_cons] at h'
    exact .cons hnext (ih h')

theorem exists_append (h : Scans accepts i c (ts ++ us) (js ++ ks) last)
    (hlength : js.length = ts.length) : ∃ middle,
    Scans accepts i c ts js middle ∧ Scans accepts (js.getLastD i) middle us ks last := by
  induction ts generalizing i c js with
  | nil =>
    obtain rfl := List.eq_nil_of_length_eq_zero hlength
    exact ⟨c, .nil, h⟩
  | cons t ts ih =>
    obtain ⟨j, js, rfl⟩ := List.exists_cons_of_length_pos (l := js) (by simp [hlength])
    cases h with
    | cons hnext hrest =>
      obtain ⟨middle, hfirst, hlast⟩ := ih hrest (by simpa using hlength)
      exact ⟨middle, .cons hnext hfirst, by rwa [List.getLastD_cons]⟩

theorem length_eq (h : Scans accepts i c ts js last) : js.length = ts.length := by
  induction h with
  | nil => rfl
  | cons _ _ ih => rw [List.length_cons, List.length_cons, ih]

theorem length_lt (h : Scans accepts i c ts js last) (hts : ts ≠ []) :
    last.rest.length < c.rest.length := by
  cases h with
  | nil => exact absurd rfl hts
  | cons hnext hrest => exact hrest.suffix.length_le.trans_lt (length_lt_of_next hnext)

/-- The text in front of what is left ends where that starts. -/
theorem exists_front (h : Scans accepts i c ts js last) : ∃ front,
    c.rest = front ++ last.rest ∧ last.position = c.position.advance front := by
  induction h with
  | nil => exact ⟨[], rfl, rfl⟩
  | @cons i j c behind last t ts js hnext hrest ih =>
    obtain ⟨front, hfront, hlast⟩ := ih
    obtain ⟨hskip, hbehind⟩ := exists_of_next hnext
    obtain ⟨gap, -, hgap, hplace⟩ := c.exists_gap_skipBlanks
    have ht := (exists_of_next_token hnext).2.1
    refine ⟨gap ++ t.lexeme ++ front, ?_, ?_⟩
    · rw [hgap, hskip, hfront, List.append_assoc, List.append_assoc]
    · rw [hlast, hbehind, ht, hplace, Position.advance_append, Position.advance_append]

/-- What is found in front of a word is found in front of another word as well. -/
theorem exchange (hx : Wordy x) (hx' : Wordy x')
    (h : Scans accepts i ⟨v ++ x, p⟩ ts js ⟨g ++ x, q⟩) (hv : ts ≠ [] → Ended v)
    (hfloat : ∀ t ∈ ts.getLast?, t.terminal ≠ .float) :
    Scans accepts i ⟨v ++ x', p⟩ ts js ⟨g ++ x', q⟩ := by
  generalize hc : Cursor.mk (v ++ x) p = c at h
  generalize hlast : Cursor.mk (g ++ x) q = last at h
  induction h generalizing v p with
  | nil =>
    rw [← hlast, Cursor.mk.injEq] at hc
    obtain ⟨hvg, rfl⟩ := hc
    rw [List.append_cancel_right hvg]
    exact .nil
  | @cons i j c behind last t ts js hnext hrest ih =>
    have hlength := hrest.length_lt
    obtain ⟨pre, hpre⟩ := hrest.suffix
    obtain ⟨z, hz⟩ := suffix_of_next hnext
    subst hc hlast
    obtain ⟨w, rest⟩ : ∃ w, behind = ⟨w ++ x, behind.position⟩ :=
      ⟨pre ++ g, by rw [List.append_assoc, hpre]⟩
    rw [rest, ← List.append_assoc] at hz
    obtain rfl : z ++ w = v := List.append_cancel_right hz
    have hw (hts : ts ≠ []) : w ≠ [] := by
      rintro rfl
      have := hlength hts
      rw [rest] at this
      simp at this
    have hfound : next (accepts i) ⟨z ++ w ++ x', p⟩ = .token t ⟨w ++ x', behind.position⟩ := by
      rw [rest] at hnext
      refine next_exchange hx hx' (hv (List.cons_ne_nil t ts)) hnext fun hnil => ?_
      obtain rfl : ts = [] := by_contra fun hts => hw hts hnil
      exact hfloat t rfl
    refine .cons hfound (ih (fun hts => (hv (List.cons_ne_nil t ts)).of_append (hw hts))
      (fun u hu => hfloat u ?_) rest.symm rfl)
    rw [List.getLast?_cons, hu]
    rfl

/-- The text in front of a word is ended behind a token that parts it from the word. -/
theorem ended {a : Token} (hx : Wordy x)
    (h : Scans accepts i ⟨v ++ x, p⟩ (ts ++ [a]) (js ++ [j]) ⟨g ++ x, q⟩)
    (hword : (Cursor.mk (g ++ x) q).skipBlanks.rest = x)
    (ha : a.Parts (accepts (js.getLastD i))) : Ended v := by
  have hlength : js.length = ts.length := by simpa using h.length_eq
  obtain ⟨middle, hfirst, hlast⟩ := h.exists_append hlength
  cases hlast with
  | cons hnext hrest =>
    cases hrest
    obtain ⟨z, hz⟩ := suffix_of_next hnext
    obtain ⟨pre, hpre⟩ := hfirst.suffix
    have hmiddle : middle = ⟨z ++ g ++ x, middle.position⟩ := by rw [List.append_assoc, hz]
    rw [hmiddle] at hnext hpre
    rw [← List.append_assoc] at hpre
    obtain rfl : pre ++ (z ++ g) = v := List.append_cancel_right hpre
    exact (ended_of_next hx hnext hword ha).append pre

end Scans

/-- How a word may stand behind the tokens in front of it: apart from the last of them, or right
behind a keyword that is read where names are not accepted and that stands apart itself. -/
inductive Fronted (accepts : Nat → Terminal → Bool) (i : Nat) : List Token → List Nat → Prop
  | apart {ts : List Token} {js : List Nat} {a : Token} {j : Nat}
      (ha : a.Parts (accepts (js.getLastD i))) : Fronted accepts i (ts ++ [a]) (js ++ [j])
  | glued {ts : List Token} {js : List Nat} {a : Token} {j : Nat} {k : Keyword} (hk : k.Solitary)
      (ha : a.terminal = .keyword k) (hname : accepts (js.getLastD i) .name = false)
      (hts : ts ≠ [] → ∃ ts' js' a' j', ts = ts' ++ [a'] ∧ js = js' ++ [j'] ∧
        a'.Parts (accepts (js'.getLastD i))) :
      Fronted accepts i (ts ++ [a]) (js ++ [j])

namespace Scans

variable {accepts : Nat → Terminal → Bool} {i j : Nat} {c last : Cursor} {t : Token}
  {ts us : List Token} {js ks : List Nat}

/-- A keyword and the tokens in front of it are found in front of another word as well, even if the
word stands right behind the keyword. -/
theorem exchange_glued {a : Token} {k : Keyword} (hk : k.Solitary)
    (ha : a.terminal = .keyword k) (hname : accepts (js.getLastD i) .name = false)
    (hts : ts ≠ [] → ∃ ts' js' a' j', ts = ts' ++ [a'] ∧ js = js' ++ [j'] ∧
      a'.Parts (accepts (js'.getLastD i)))
    (h : Scans accepts i ⟨v ++ x, p⟩ (ts ++ [a]) (js ++ [j]) ⟨x, q⟩) (x' : List Char) :
    Scans accepts i ⟨v ++ x', p⟩ (ts ++ [a]) (js ++ [j]) ⟨x', q⟩ := by
  have hlength : js.length = ts.length := by simpa using h.length_eq
  obtain ⟨middle, hfirst, hlast⟩ := h.exists_append hlength
  cases hlast with
  | cons hnext hrest =>
    cases hrest
    have hskip : middle.skipBlanks.rest = a.lexeme ++ x := (exists_of_next hnext).1
    have hwordy : Wordy a.lexeme := by
      have hspelling : a.lexeme ∈ (Terminal.keyword k).language :=
        ha ▸ mem_language_of_lexed? (exists_of_next_token hnext).1
      have hlexeme : a.lexeme = k.spelling.toList := hspelling
      exact hlexeme ▸ wordy_of_names k.spelling_mem_names
    -- the text is cut in front of the keyword, and the two words are exchanged together
    obtain ⟨z, hz⟩ := middle.rest_skipBlanks_suffix
    have hmiddle : middle = ⟨z ++ (a.lexeme ++ x), middle.position⟩ := by rw [← hskip, hz]
    rw [hmiddle] at hfirst hnext hskip
    obtain ⟨pre, hpre⟩ := hfirst.suffix
    have hpre : pre ++ (z ++ (a.lexeme ++ x)) = v ++ x := hpre
    have hfront : pre ++ z ++ a.lexeme ++ x = v ++ x := by rw [← hpre]; simp
    obtain rfl := List.append_cancel_right hfront
    rw [List.append_assoc] at hfirst ⊢
    have hended (hne : ts ≠ []) : Ended (pre ++ z) := by
      obtain ⟨ts', js', a', j', rfl, rfl, ha'⟩ := hts hne
      exact hfirst.ended (hwordy.append x) hskip ha'
    have hfloat : ∀ t ∈ ts.getLast?, t.terminal ≠ .float := by
      intro t ht
      obtain ⟨ts', js', a', j', rfl, rfl, ha'⟩ := hts (by rintro rfl; cases ht)
      obtain rfl : a' = t := by simpa using ht
      exact ha'.ne_float
    have hbefore := hfirst.exchange (hwordy.append x) (hwordy.append x') hended hfloat
    exact hbefore.append (.cons (next_keyword hk ha hname hskip hnext x') .nil)

/-- Tokens in front of a word are found in front of another word as well. -/
theorem exchange_word (hx : Wordy x) (hx' : Wordy x') (hfront : Fronted accepts i ts js)
    (h : Scans accepts i ⟨v ++ x, p⟩ ts js ⟨g ++ x, q⟩)
    (hword : (Cursor.mk (g ++ x) q).skipBlanks.rest = x) :
    Scans accepts i ⟨v ++ x', p⟩ ts js ⟨g ++ x', q⟩ := by
  cases hfront with
  | apart ha =>
    refine h.exchange hx hx' (fun _ => h.ended hx hword ha) fun t ht => ?_
    obtain rfl : _ = t := by simpa using ht
    exact ha.ne_float
  | @glued ts js a j k hk ha hname hts =>
    by_cases hg : g = []
    · subst hg
      exact h.exchange_glued hk ha hname hts x'
    · obtain ⟨front, hfront, -⟩ := h.exists_front
      have hfront : v ++ x = front ++ (g ++ x) := hfront
      rw [← List.append_assoc] at hfront
      obtain rfl := List.append_cancel_right hfront
      have hended := (Cursor.ended_of_skipBlanks hx rfl hword hg).append front
      refine h.exchange hx hx' (fun _ => hended) fun t ht => ?_
      obtain rfl : a = t := by simpa using ht
      rw [ha]
      exact nofun

/-- A word, where names are accepted, may be replaced by another one: the tokens in front of it
stay, and those behind it are found in what is left. -/
theorem replace (h : Scans accepts i c (ts ++ t :: us) (js ++ j :: ks) last)
    (hlength : js.length = ts.length) (hfront : Fronted accepts i ts js)
    (ht : t.terminal.isWord = true) (hname : accepts (js.getLastD i) .name = true) :
    ∃ pre post, c.rest = pre ++ t.lexeme ++ post ∧ t.position = c.position.advance pre ∧
      Scans accepts j ⟨post, t.position.advance t.lexeme⟩ us ks last ∧
        ∀ new ∈ names, ∃ u middle, ReadsAs (accepts (js.getLastD i)) new u ∧
          Scans accepts i ⟨pre ++ new ++ post, c.position⟩ ts js middle ∧
            next (accepts (js.getLastD i)) middle =
              .token ⟨u, new, t.position⟩ ⟨post, t.position.advance new⟩ := by
  obtain ⟨middle, hfirst, hlast⟩ := h.exists_append hlength
  cases hlast with
  | @cons _ _ _ behind _ _ _ _ hnext hrest =>
    obtain ⟨hlexed, hplace, -⟩ := exists_of_next_token hnext
    obtain ⟨hskip, hbehind⟩ := exists_of_next hnext
    obtain ⟨gap, -, hgap, hgapped⟩ := middle.exists_gap_skipBlanks
    obtain ⟨front, hfrontText, hmiddle⟩ := hfirst.exists_front
    obtain ⟨post, hpost⟩ : ∃ post, behind = ⟨post, t.position.advance t.lexeme⟩ :=
      ⟨behind.rest, by rw [← hbehind]⟩
    rw [hpost] at hnext hskip hrest
    have hrestText : middle.rest = gap ++ (t.lexeme ++ post) := by rw [hgap, hskip]
    have hread := (word?_cases (word?_of_lexed? hlexed ht hname)).1
    rw [hskip] at hread
    have hcursor : c = ⟨front ++ gap ++ (t.lexeme ++ post), c.position⟩ := by
      rw [List.append_assoc, ← hrestText, ← hfrontText]
    have hmiddleCursor : middle = ⟨gap ++ (t.lexeme ++ post), middle.position⟩ := by
      rw [← hrestText]
    have hword : (Cursor.mk (gap ++ (t.lexeme ++ post)) middle.position).skipBlanks.rest =
        t.lexeme ++ post := by
      rw [← hmiddleCursor, hskip]
    have hbefore : Scans accepts i ⟨front ++ gap ++ (t.lexeme ++ post), c.position⟩ ts js
        ⟨gap ++ (t.lexeme ++ post), middle.position⟩ := by
      rwa [← hcursor, ← hmiddleCursor]
    rw [hmiddleCursor] at hnext
    refine ⟨front ++ gap, post, ?_, ?_, hrest, fun new hnew => ?_⟩
    · rw [hfrontText, hrestText]
      simp
    · rw [hplace, hgapped, hmiddle, Position.advance_append]
    · obtain ⟨u, hu, hfound⟩ := next_word ht hname hnew hword hnext
      refine ⟨u, _, hu, ?_, hfound⟩
      have hexchanged := hbefore.exchange_word (exists_start_of_name? hread)
        ((wordy_of_names hnew).append post) hfront hword
      rwa [List.append_assoc (front ++ gap)]

end Scans

end Lexer

/-! ## Places behind a word that is replaced -/

namespace Position

/-- Where a place lies once the word at `p` has been replaced, for the lengths of the two words:
what stands behind the word on its line moves. -/
def shift (p : Position) (old new : Nat) (q : Position) : Position :=
  if q.line = p.line ∧ p.column < q.column then ⟨q.line, q.column - old + new⟩ else q

variable {p q : Position} {old new : List Char}

theorem advance_of_names {w : List Char} (h : w ∈ Lexeme.names) :
    p.advance w = ⟨p.line, p.column + w.length⟩ := by
  have hpart := Lexeme.isNamePart_of_names h
  clear h
  induction w generalizing p with
  | nil => rfl
  | cons c w ih =>
    rw [List.forall_mem_cons] at hpart
    have hc : c ≠ '\n' := by
      rintro rfl
      exact absurd hpart.1 (by decide)
    have hnext : p.next c = ⟨p.line, p.column + 1⟩ := if_neg hc
    rw [advance, List.foldl_cons, hnext]
    have hrest := ih (p := ⟨p.line, p.column + 1⟩) hpart.2
    rw [advance] at hrest
    rw [hrest, List.length_cons, Nat.add_assoc, Nat.add_comm 1]

/-- Nothing moves in front of the word. -/
theorem shift_of_le {a b : Nat} (h : q ≤ p) : p.shift a b q = q := by
  refine if_neg ?_
  rintro ⟨hline, hcolumn⟩
  rcases h with h | ⟨-, h⟩ <;> omega

/-- What follows the one word moves to where it follows the other. -/
theorem shift_advance (hold : old ∈ Lexeme.names) (hnew : new ∈ Lexeme.names) (cs : List Char) :
    p.shift old.length new.length ((p.advance old).advance cs) = (p.advance new).advance cs := by
  have hlength : 0 < old.length := by
    obtain ⟨c, ds, rfl, -⟩ := Lexeme.exists_of_mem_names hold
    exact Nat.succ_pos _
  -- on the line of the word both places are as far behind it, on later lines they are the same
  suffices h : ∀ q q' : Position,
      q.line = p.line ∧ p.column + old.length ≤ q.column ∧
          q' = ⟨q.line, q.column - old.length + new.length⟩ ∨ p.line < q.line ∧ q' = q →
        p.shift old.length new.length (q.advance cs) = q'.advance cs by
    refine h _ _ (.inl ?_)
    rw [advance_of_names hold, advance_of_names hnew]
    exact ⟨rfl, Nat.le_refl _, by simp only [Position.mk.injEq, true_and]; omega⟩
  induction cs with
  | nil =>
    rintro q q' (⟨hline, hcolumn, rfl⟩ | ⟨hline, rfl⟩)
    · exact if_pos ⟨hline, show p.column < q.column by omega⟩
    · exact if_neg fun hsame => hline.ne hsame.1.symm
  | cons c cs ih =>
    intro q q' hq
    refine ih (q.next c) (q'.next c) ?_
    unfold next
    rcases hq with ⟨hline, hcolumn, rfl⟩ | ⟨hline, rfl⟩
    · by_cases hc : c = '\n'
      · rw [if_pos hc, if_pos hc]
        exact .inr ⟨Nat.lt_succ_of_le hline.ge, rfl⟩
      · rw [if_neg hc, if_neg hc]
        refine .inl ⟨hline, hcolumn.trans (Nat.le_succ _), ?_⟩
        simp only [Position.mk.injEq, true_and]
        omega
    · refine .inr ⟨?_, rfl⟩
      by_cases hc : c = '\n'
      · rw [if_pos hc]
        exact hline.trans (Nat.lt_succ_self _)
      · rwa [if_neg hc]

end Position

/-- A token with its place moved. -/
def Token.move (σ : Position → Position) (t : Token) : Token := { t with position := σ t.position }

namespace Lexer.Scans

open Lexeme

variable {accepts : Nat → Terminal → Bool} {i j : Nat} {c last : Cursor} {t : Token}
  {ts us : List Token} {js ks : List Nat} {σ : Position → Position} {p : Position}

/-- What is found in a text does not depend on where the text starts. -/
theorem moved (h : Scans accepts i c ts js last)
    (hσ : ∀ cs, σ (c.position.advance cs) = p.advance cs) :
    Scans accepts i ⟨c.rest, p⟩ (ts.map (Token.move σ)) js ⟨last.rest, σ last.position⟩ := by
  induction h generalizing p with
  | @nil i c =>
    have hp : σ c.position = p := hσ []
    rw [hp]
    exact .nil
  | @cons i j c behind last t ts js hnext hrest ih =>
    obtain ⟨gap, hplace, hmoved⟩ := next_moved hnext
    have hbehind := (exists_of_next hnext).2
    have ht : t.move σ = { t with position := p.advance gap } := by
      rw [Token.move, hplace, hσ]
    refine .cons (ht ▸ hmoved p) (ih fun cs => ?_)
    rw [hbehind, hplace, ← Position.advance_append, ← Position.advance_append,
      ← Position.advance_append, ← Position.advance_append, hσ]

/-- Where a mark comes next, what stands in front of it does not matter but for the mark being
accepted. -/
theorem of_mark {m : Mark} (hm : m ≠ .dot) (ht : ∃ t ∈ ts.head?, t.terminal = .mark m)
    (h : Scans accepts i c ts js last) (haccept : accepts j (.mark m) = true) :
    Scans accepts j c ts js last := by
  obtain ⟨t, ht, hterminal⟩ := ht
  cases h with
  | nil => cases ht
  | cons hnext hrest =>
    obtain rfl := Option.some.inj ht
    exact .cons (next_mark hm hterminal hnext haccept) hrest

theorem position_le (h : Scans accepts i c ts js last) : ∀ t ∈ ts, t.position ≤ last.position := by
  induction h with
  | nil => exact fun _ ht => nomatch ht
  | @cons _ _ _ behind _ t _ _ hnext hrest ih =>
    obtain ⟨front, -, hlast⟩ := hrest.exists_front
    refine List.forall_mem_cons.mpr ⟨?_, ih⟩
    rw [hlast, (exists_of_next hnext).2]
    exact (t.position.le_advance _).trans (Position.le_advance _ _)

/-- A word is a name, whatever it is read as. -/
theorem mem_names (h : Scans accepts i c (ts ++ t :: us) (js ++ j :: ks) last)
    (hlength : js.length = ts.length) (ht : t.terminal.isWord = true) : t.lexeme ∈ names := by
  obtain ⟨middle, -, hlast⟩ := h.exists_append hlength
  cases hlast with
  | cons hnext _ =>
    have hspelling := mem_language_of_lexed? (exists_of_next_token hnext).1
    cases hterminal : t.terminal with
    | name =>
      rw [hterminal] at hspelling
      exact hspelling
    | keyword k =>
      rw [hterminal] at hspelling
      have hlexeme : t.lexeme = k.spelling.toList := hspelling
      exact hlexeme ▸ k.spelling_mem_names
    | mark | int | float | string =>
      rw [hterminal] at ht
      cases ht

/-- A word, where names are accepted, may be replaced by another one. The tokens in front of it
stay, and those behind it move, even if another state stands behind the word, as long as an equals
sign comes next. -/
theorem respell (h : Scans accepts i c (ts ++ t :: us) (js ++ j :: ks) last)
    (hlength : js.length = ts.length) (hfront : Fronted accepts i ts js)
    (ht : t.terminal.isWord = true) (hname : accepts (js.getLastD i) .name = true) :
    ∃ pre post, c.rest = pre ++ t.lexeme ++ post ∧ t.position = c.position.advance pre ∧
      ∀ new ∈ names, ∃ u middle behind, ReadsAs (accepts (js.getLastD i)) new u ∧
        Scans accepts i ⟨pre ++ new ++ post, c.position⟩ ts js middle ∧
          next (accepts (js.getLastD i)) middle = .token ⟨u, new, t.position⟩ behind ∧
            ∀ j', (j' = j ∨ (∃ t' ∈ us.head?, t'.terminal = .mark .equal) ∧
                accepts j' (.mark .equal) = true) →
              ∃ last', Scans accepts i ⟨pre ++ new ++ post, c.position⟩
                ((ts ++ ⟨u, new, t.position⟩ :: us).map
                  (Token.move (t.position.shift t.lexeme.length new.length)))
                (js ++ j' :: ks) last' ∧ last'.skipBlanks.rest = last.skipBlanks.rest := by
  obtain ⟨pre, post, htext, hplace, hbehind, hreplaced⟩ := h.replace hlength hfront ht hname
  refine ⟨pre, post, htext, hplace, fun new hnew => ?_⟩
  obtain ⟨u, middle, hu, hbefore, hfound⟩ := hreplaced new hnew
  refine ⟨u, middle, _, hu, hbefore, hfound, fun j' hj' => ?_⟩
  have hold := h.mem_names hlength ht
  have hmoved := hbehind.moved fun cs => Position.shift_advance (p := t.position) hold hnew cs
  generalize hshift : t.position.shift t.lexeme.length new.length = shift at hmoved ⊢
  have hstay {q : Position} (hq : q ≤ t.position) : shift q = q :=
    hshift ▸ Position.shift_of_le hq
  -- what stands in front of the word does not move
  have hfront : ts.map (Token.move shift) = ts := by
    have hsame : ∀ t' ∈ ts, t'.move shift = id t' := by
      intro t' ht'
      obtain ⟨gap, -, -, hgap⟩ := middle.exists_gap_skipBlanks
      have hfollows : t.position = middle.position.advance gap :=
        (exists_of_next_token hfound).2.1.trans hgap
      have hle := (hbefore.position_le t' ht').trans (middle.position.le_advance gap)
      rw [Token.move, hstay (hfollows ▸ hle), id]
    rw [List.map_congr_left hsame, List.map_id]
  have hbehind : Scans accepts j' ⟨post, t.position.advance new⟩ (us.map (Token.move shift)) ks
      ⟨last.rest, shift last.position⟩ := by
    rcases hj' with rfl | ⟨⟨t', ht', hequal⟩, haccept⟩
    · exact hmoved
    · refine of_mark (by decide) ⟨t'.move shift, ?_, hequal⟩ hmoved haccept
      rw [List.head?_map, ht']
      rfl
  refine ⟨⟨last.rest, shift last.position⟩, ?_, ?_⟩
  · rw [List.map_append, List.map_cons, hfront, Token.move, hstay le_rfl]
    exact hbefore.append (.cons hfound hbehind)
  · obtain ⟨gap, rest, -, hskip⟩ := Cursor.exists_skipBlanks last.rest
    exact (congrArg Cursor.rest (hskip _)).trans (congrArg Cursor.rest (hskip last.position)).symm

end Lexer.Scans

end ProtoSchema
