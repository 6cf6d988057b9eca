import ProtoSchema.Proofs.Token.Whole

/-!
# Legible texts

A text in which every lexeme stops in front of what follows it, with blanks and comments to the ends
of their lines in between. The lexer finds the lexemes of such a text one after the other wherever
their terminals are accepted (`Lexer.next_append`), however few blanks there are. The text of some
lexemes with a single space between any two of them is one.

Pieces of text that spell lexemes are put together with blanks and marks in between (`Segment`), and
lines of such pieces one below the other, set in as far as one likes (`Lines`). What is behind two
slashes on a line does not count.
-/

namespace ProtoSchema

namespace Lexeme

/-- What a lexeme may open with: a letter or underscore, a digit, a quote, or a mark. -/
def isOpening (c : Char) : Bool :=
  isNameStart c || c.isDigit || c == '"' || c == '\'' || Mark.all.any fun m => m.character == c

/-- Lexemes open with none of the characters that open blanks and comments. -/
theorem not_isBlank_of_opening {c : Char} (h : isOpening c = true) :
    isBlank c = false ∧ c ≠ '/' := by
  constructor
  · rw [Bool.eq_false_iff]
    intro hblank
    simp only [isBlank, decide_eq_true_eq] at hblank
    rcases hblank with rfl | rfl | rfl | rfl | rfl <;> exact absurd h (by decide)
  · rintro rfl
    exact absurd h (by decide)

theorem exists_first {t : Terminal} {l : List Char} (h : l ∈ t.language) :
    ∃ c cs, l = c :: cs ∧ isOpening c = true := by
  have hdigit {c : Char} (hc : c.isDigit = true) : isOpening c = true := by simp [isOpening, hc]
  have hstart {c : Char} (hc : isNameStart c = true) : isOpening c = true := by
    simp [isOpening, hc]
  cases t with
  | name =>
    obtain ⟨c, cs, rfl, hc, -⟩ := exists_of_mem_names h
    exact ⟨c, cs, rfl, hstart hc⟩
  | int =>
    obtain ⟨x, ds, rfl, -⟩ | ⟨c, ds, rfl, hfirst, hlast, -⟩ | ⟨ds, rfl, -⟩ := exists_of_mem_integers h
    · exact ⟨'0', _, rfl, by decide⟩
    · refine ⟨c, ds, rfl, hdigit ?_⟩
      simp only [Char.isDigit, Bool.and_eq_true, decide_eq_true_eq]
      exact ⟨Char.le_trans (by decide) hfirst, hlast⟩
    · exact ⟨'0', _, rfl, by decide⟩
  | float =>
    obtain ⟨before, hbefore, h⟩ := exists_of_mem_floats h
    cases before with
    | nil =>
      obtain ⟨behind, e, rfl, -⟩ | ⟨e, -, -, hne⟩ := h
      · exact ⟨'.', _, rfl, by decide⟩
      · exact absurd rfl hne
    | cons d before =>
      have hd := hdigit (hbefore d List.mem_cons_self)
      obtain ⟨behind, e, rfl, -⟩ | ⟨e, -, rfl, -⟩ := h
      · exact ⟨d, _, rfl, hd⟩
      · exact ⟨d, _, rfl, hd⟩
  | string =>
    rcases h with h | h
    · rw [quoted, mul_assoc] at h
      obtain ⟨_, rfl, rest, -, rfl⟩ := Language.mem_mul.mp h
      exact ⟨'"', rest, rfl, by decide⟩
    · rw [quoted, mul_assoc] at h
      obtain ⟨_, rfl, rest, -, rfl⟩ := Language.mem_mul.mp h
      exact ⟨'\'', rest, rfl, by decide⟩
  | keyword k =>
    obtain rfl : l = k.spelling.toList := h
    obtain ⟨c, cs, heq, hc, -⟩ := exists_of_mem_names k.spelling_mem_names
    exact ⟨c, cs, heq, hstart hc⟩
  | mark m =>
    obtain rfl : l = [m.character] := h
    exact ⟨m.character, [], rfl, by cases m <;> decide⟩

end Lexeme

namespace Cursor

theorem skipBlanks_of_none {c : Cursor} (h : Lexeme.blank? c.rest = none) : c.skipBlanks = c := by
  rw [skipBlanks]
  split
  · next hsome => cases hsome.symm.trans h
  · rfl

theorem skipBlanks_of_some {c : Cursor} {l : List Char} (h : Lexeme.blank? c.rest = some l) :
    c.skipBlanks = (c.after l).skipBlanks := by
  rw [skipBlanks]
  split
  · next hsome =>
    obtain rfl := Option.some.inj (hsome.symm.trans h)
    rfl
  · next hnone => cases hnone.symm.trans h

/-- A blank is skipped, whatever follows it. -/
theorem skipBlanks_blank {c : Char} (hc : Lexeme.isBlank c = true) (cs : List Char) (p : Position) :
    (Cursor.mk (c :: cs) p).skipBlanks = (Cursor.mk cs (p.advance [c])).skipBlanks := by
  have hslash (d : Char) (hd : Lexeme.isBlank d = true) (ds : List Char) :
      Lexeme.blank? (d :: ds) = some (d :: ds.takeWhile Lexeme.isBlank) := by
    rw [Lexeme.blank?, if_pos hd]
    all_goals
      rintro _ rfl
      exact absurd hd (by decide)
  rw [skipBlanks_of_some (hslash c hc cs)]
  cases cs with
  | nil => rfl
  | cons d ds =>
    cases hd : Lexeme.isBlank d with
    | false =>
      rw [List.takeWhile_cons_of_neg (by simp [hd])]
      rfl
    | true =>
      -- the run of blanks that is skipped is the same but for its first
      have hrest := skipBlanks_of_some (c := ⟨d :: ds, p.advance [c]⟩) (hslash d hd ds)
      rw [List.takeWhile_cons_of_pos hd, hrest]
      simp only [after, List.length_cons, List.drop_succ_cons, ← Position.advance_append,
        List.singleton_append]

/-- A comment is skipped up to the end of its line. -/
theorem skipBlanks_comment {body : List Char} (hbody : '\n' ∉ body) (cs : List Char)
    (p : Position) :
    (Cursor.mk ('/' :: '/' :: (body ++ '\n' :: cs)) p).skipBlanks =
      (Cursor.mk ('\n' :: cs) (p.advance ('/' :: '/' :: body))).skipBlanks := by
  have hline : (body ++ '\n' :: cs).takeWhile (· ≠ '\n') = body := by
    refine Lexeme.takeWhile_append (fun c hc => decide_eq_true ?_) ?_
    · rintro rfl
      exact hbody hc
    · rintro c hc
      obtain rfl := Option.some.inj hc
      decide
  have hcomment : Lexeme.blank? ('/' :: '/' :: (body ++ '\n' :: cs)) =
      some ('/' :: '/' :: body) := by
    rw [Lexeme.blank?, hline]
  rw [skipBlanks_of_some hcomment]
  simp only [after, List.length_cons, List.drop_succ_cons, List.drop_left]

end Cursor

namespace Lexer

variable {accept : Terminal → Bool} {p : Position} {l : Lexed}

/-- No lexeme opens with a blank or a comment. -/
theorem blank?_append (hl : l.2 ∈ l.1.language) (tail : List Char) :
    Lexeme.blank? (l.2 ++ tail) = none := by
  obtain ⟨c, cs, heq, hc⟩ := Lexeme.exists_first hl
  obtain ⟨hblank, hslash⟩ := Lexeme.not_isBlank_of_opening hc
  rw [heq]
  exact Lexeme.blank?_eq_none hblank hslash

/-- A lexeme is found where its terminal is accepted. A name that is spelled like a keyword is found
where this keyword is not. -/
theorem next_append {tail : List Char} (haccept : accept l.1 = true) (hl : l.2 ∈ l.1.language)
    (hname : l.1 = .name → ∀ k, Keyword.ofSpelling? l.2 = some k → accept (.keyword k) = false)
    (hstops : l.1.Stops tail) :
    next accept ⟨l.2 ++ tail, p⟩ = .token ⟨l.1, l.2, p⟩ ⟨tail, p.advance l.2⟩ := by
  have hne : l.2 ++ tail ≠ [] := by
    intro hnil
    exact l.1.nil_notMem_language ((List.append_eq_nil_iff.mp hnil).1 ▸ hl)
  have hlexed : lexed? accept (l.2 ++ tail) = some (l.1, l.2) :=
    lexed?_append haccept hl hname hstops
  rw [next, Cursor.skipBlanks_of_none (blank?_append hl tail)]
  simp only [if_neg hne, hlexed, Cursor.after]
  rw [List.drop_left]

theorem next_nil : next accept ⟨[], p⟩ = .finished ⟨[], p⟩ := by
  have hblank : Lexeme.blank? (Cursor.mk [] p).rest = none := rfl
  rw [next, Cursor.skipBlanks_of_none hblank]
  rfl

theorem next_blank {c : Char} (hc : Lexeme.isBlank c = true) (cs : List Char) :
    next accept ⟨c :: cs, p⟩ = next accept ⟨cs, p.advance [c]⟩ := by
  rw [next, next, Cursor.skipBlanks_blank hc]

theorem next_comment {body : List Char} (hbody : '\n' ∉ body) (cs : List Char) :
    next accept ⟨'/' :: '/' :: (body ++ '\n' :: cs), p⟩ =
      next accept ⟨'\n' :: cs, p.advance ('/' :: '/' :: body)⟩ := by
  rw [next, next, Cursor.skipBlanks_comment hbody]

end Lexer

/-- A token without its place. -/
def Token.lexed (t : Token) : Lexed := (t.terminal, t.lexeme)

/-- A text that starts at a place and holds these tokens, in such a way that each of them can be told
from what follows it. -/
inductive Legible : Position → List Char → List Token → Prop
  | nil {p : Position} : Legible p [] []
  | blank {p : Position} {c : Char} {cs : List Char} {ts : List Token}
      (hc : Lexeme.isBlank c = true) (h : Legible (p.advance [c]) cs ts) : Legible p (c :: cs) ts
  | comment {p : Position} {body cs : List Char} {ts : List Token} (hbody : '\n' ∉ body)
      (h : Legible (p.advance ('/' :: '/' :: body)) ('\n' :: cs) ts) :
      Legible p ('/' :: '/' :: (body ++ '\n' :: cs)) ts
  | token {p : Position} {l : Lexed} {cs : List Char} {ts : List Token}
      (hl : l.2 ∈ l.1.language) (hstops : l.1.Stops cs) (h : Legible (p.advance l.2) cs ts) :
      Legible p (l.2 ++ cs) (⟨l.1, l.2, p⟩ :: ts)

/-- A text that holds these lexemes, wherever it starts. -/
def Spells (cs : List Char) (ls : List Lexed) : Prop :=
  ∀ p, ∃ ts, ts.map Token.lexed = ls ∧ Legible p cs ts

namespace Spells

variable {cs : List Char} {ls : List Lexed}

theorem nil : Spells [] [] := fun _ => ⟨[], rfl, .nil⟩

theorem blank {c : Char} (hc : Lexeme.isBlank c = true) (h : Spells cs ls) : Spells (c :: cs) ls := by
  intro p
  obtain ⟨ts, hlexed, hts⟩ := h (p.advance [c])
  exact ⟨ts, hlexed, .blank hc hts⟩

theorem comment {body : List Char} (hbody : '\n' ∉ body) (h : Spells ('\n' :: cs) ls) :
    Spells ('/' :: '/' :: (body ++ '\n' :: cs)) ls := by
  intro p
  obtain ⟨ts, hlexed, hts⟩ := h (p.advance ('/' :: '/' :: body))
  exact ⟨ts, hlexed, .comment hbody hts⟩

theorem lexeme {l : Lexed} (hl : l.2 ∈ l.1.language) (hstops : l.1.Stops cs) (h : Spells cs ls) :
    Spells (l.2 ++ cs) (l :: ls) := by
  intro p
  obtain ⟨ts, hlexed, hts⟩ := h (p.advance l.2)
  exact ⟨⟨l.1, l.2, p⟩ :: ts, by rw [List.map_cons, hlexed]; rfl, .token hl hstops hts⟩

end Spells

/-! ## Spaced texts -/

namespace Lexed

/-- A lexeme of its terminal; a name is no keyword. -/
structure Proper (l : Lexed) : Prop where
  mem_language : l.2 ∈ l.1.language
  name : l.1 = .name → Keyword.ofSpelling? l.2 = none

/-- The lexemes with a single space between any two of them. -/
def spaced (ls : List Lexed) : List Char := [' '].intercalate (ls.map Prod.snd)

/-- What stands behind a lexeme: nothing, or a space and the lexemes that follow. -/
def behind : List Lexed → List Char
  | [] => []
  | l :: ls => ' ' :: spaced (l :: ls)

/-- The tokens of a spaced text that starts at a place. -/
def placed : Position → List Lexed → List Token
  | _, [] => []
  | p, l :: ls => ⟨l.1, l.2, p⟩ :: placed (p.advance (l.2 ++ [' '])) ls

theorem spaced_cons (l : Lexed) (ls : List Lexed) : spaced (l :: ls) = l.2 ++ behind ls := by
  cases ls with
  | nil => simp [spaced, behind]
  | cons l' ls => simp [spaced, behind, List.intercalate_cons_cons]

theorem apart_behind (ls : List Lexed) : Lexeme.Apart (behind ls) := by
  intro c hc
  cases ls with
  | nil => cases hc
  | cons l ls =>
    obtain rfl := Option.some.inj hc
    decide

/-- The tokens are the lexemes, one for each. -/
theorem exists_mem_of_mem_placed {p : Position} {ls : List Lexed} {t : Token}
    (h : t ∈ placed p ls) : (t.terminal, t.lexeme) ∈ ls := by
  induction ls generalizing p with
  | nil => cases h
  | cons l ls ih =>
    rcases List.mem_cons.mp h with rfl | h
    · exact List.mem_cons_self
    · exact List.mem_cons_of_mem _ (ih h)

end Lexed

namespace Lexer

open Lexed

variable {accept : Terminal → Bool} {p : Position} {l : Lexed} {ls : List Lexed}

theorem next_spaced (haccept : accept l.1 = true) (hl : Proper l) :
    next accept ⟨spaced (l :: ls), p⟩ = .token ⟨l.1, l.2, p⟩ ⟨behind ls, p.advance l.2⟩ := by
  have hname : l.1 = .name → ∀ k, Keyword.ofSpelling? l.2 = some k →
      accept (.keyword k) = false := fun hl' k hk => by cases (hl.name hl').symm.trans hk
  rw [spaced_cons]
  exact next_append haccept hl.mem_language hname ((apart_behind ls).stops l.1)

/-- The space in front of a lexeme is skipped. -/
theorem next_behind :
    next accept ⟨behind (l :: ls), p⟩ = next accept ⟨spaced (l :: ls), p.advance [' ']⟩ :=
  next_blank (by decide) _

end Lexer

namespace Lexed

/-- A spaced text is legible, and so is what is left behind one of its lexemes. -/
theorem legible_spaced {ls : List Lexed} (hls : ∀ l ∈ ls, Proper l) (p : Position) :
    Legible p (spaced ls) (placed p ls) := by
  induction ls generalizing p with
  | nil => exact .nil
  | cons l ls ih =>
    rw [List.forall_mem_cons] at hls
    rw [spaced_cons]
    refine .token hls.1.mem_language ((apart_behind ls).stops l.1) ?_
    cases ls with
    | nil => exact .nil
    | cons l' ls =>
      rw [Position.advance_append]
      exact .blank (by decide) (ih hls.2 _)

end Lexed

/-! ## Pieces of text -/

/-- A text that spells lexemes, in front of every text that opens with no part of them. -/
def Segment (text : List Char) (ls : List Lexed) : Prop :=
  ∀ rest rs, Lexeme.Apart rest → Spells rest rs → Spells (text ++ rest) (ls ++ rs)

theorem Lexeme.apart_blank {c : Char} (hc : Lexeme.isBlank c = true) (rest : List Char) :
    Lexeme.Apart (c :: rest) := by
  rintro d hd
  obtain rfl := Option.some.inj hd
  simp only [Lexeme.isBlank, decide_eq_true_eq] at hc
  rcases hc with rfl | rfl | rfl | rfl | rfl <;> decide

theorem Lexeme.apart_mark {m : Mark} (hm : m ≠ .dot) (rest : List Char) :
    Lexeme.Apart (m.character :: rest) := by
  rintro d hd
  obtain rfl := Option.some.inj hd
  cases m with
  | dot => exact absurd rfl hm
  | _ => decide

namespace Segment

variable {a b : List Char} {ls ms : List Lexed}

theorem nil : Segment [] [] := fun _ _ _ h => h

theorem lexeme {l : Lexed} (hl : l.2 ∈ l.1.language) : Segment l.2 [l] :=
  fun _ _ hrest h => .lexeme hl (hrest.stops l.1) h

/-- A mark stands in front of everything. The dot is no mark in front of a digit. -/
theorem mark {m : Mark} (h : Segment a ls) (hdot : m = .dot → ∃ c cs, a = c :: cs ∧ ¬ c.isDigit) :
    Segment (m.character :: a) ((.mark m, [m.character]) :: ls) := by
  intro rest rs hrest hspells
  have hstops : (Terminal.mark m).Stops (a ++ rest) := by
    cases m with
    | dot =>
      obtain ⟨c, cs, rfl, hc⟩ := hdot rfl
      rintro d hd
      obtain rfl := Option.some.inj hd
      exact Bool.eq_false_iff.mpr hc
    | _ => trivial
  exact @Spells.lexeme _ _ (.mark m, [m.character]) rfl hstops (h rest rs hrest hspells)

/-- A piece stands in front of another one that opens with a character apart from it. -/
theorem append (h : Segment a ls) (h' : Segment b ms) (hb : ∀ rest, Lexeme.Apart (b ++ rest)) :
    Segment (a ++ b) (ls ++ ms) := by
  intro rest rs hrest hspells
  rw [List.append_assoc, List.append_assoc]
  exact h _ _ (hb rest) (h' rest rs hrest hspells)

theorem blank {c : Char} (hc : Lexeme.isBlank c = true) (h : Segment a ls) : Segment (c :: a) ls :=
  fun rest rs hrest hspells => .blank hc (h rest rs hrest hspells)

/-- Two pieces with a space in between. -/
theorem spaced (h : Segment a ls) (h' : Segment b ms) : Segment (a ++ ' ' :: b) (ls ++ ms) :=
  h.append (h'.blank rfl) fun rest => Lexeme.apart_blank rfl (b ++ rest)

/-- Two pieces with a mark in between. -/
theorem marked {m : Mark} (h : Segment a ls) (hm : m ≠ .dot) (h' : Segment b ms) :
    Segment (a ++ m.character :: b) (ls ++ (.mark m, [m.character]) :: ms) :=
  h.append (h'.mark fun hdot => absurd hdot hm) fun rest => Lexeme.apart_mark hm (b ++ rest)

end Segment

/-! ## Lines -/

/-- A line that spells lexemes. -/
def Line (line : String) (ls : List Lexed) : Prop :=
  ∀ rest rs, Spells rest rs → Spells (line.toList ++ '\n' :: rest) (ls ++ rs)

/-- Lines that spell lexemes, the one below the other. -/
inductive Lines : List String → List Lexed → Prop
  | nil : Lines [] []
  | cons {line : String} {lines : List String} {ls ms : List Lexed} (h : Line line ls)
      (h' : Lines lines ms) : Lines (line :: lines) (ls ++ ms)

theorem Segment.line {line : String} {ls : List Lexed} (h : Segment line.toList ls) :
    Line line ls :=
  fun rest _ hspells => h _ _ (Lexeme.apart_blank rfl rest) (.blank rfl hspells)

/-- A remark stands behind a piece of text, with spaces in between. -/
theorem Segment.remarked {line remark : String} {ls : List Lexed} (h : Segment line.toList ls)
    (hremark : '\n' ∉ remark.toList) : Line (line ++ "  //" ++ remark) ls := by
  intro rest _ hspells
  have htext : (line ++ "  //" ++ remark).toList ++ '\n' :: rest =
      line.toList ++ ' ' :: ' ' :: '/' :: '/' :: (remark.toList ++ '\n' :: rest) := by
    simp
  rw [htext]
  exact h _ _ (Lexeme.apart_blank rfl _)
    (.blank rfl (.blank rfl (.comment hremark (.blank rfl hspells))))

/-- A remark on its own line. -/
theorem Line.remark {remark : String} (hremark : '\n' ∉ remark.toList) :
    Line ("//" ++ remark) [] := by
  intro rest _ hspells
  rw [String.toList_append, List.append_assoc]
  exact .comment hremark (.blank rfl hspells)

theorem Line.indented {line : String} {ls : List Lexed} (h : Line line ls) :
    Line ("  " ++ line) ls := by
  intro rest _ hspells
  rw [String.toList_append, List.append_assoc]
  exact .blank rfl (.blank rfl (h rest _ hspells))

namespace Lines

variable {lines lines' : List String} {ls ms : List Lexed}

theorem single {line : String} (h : Line line ls) : Lines [line] ls := by
  rw [← List.append_nil ls]
  exact .cons h .nil

theorem append (h : Lines lines ls) (h' : Lines lines' ms) : Lines (lines ++ lines') (ls ++ ms) := by
  induction h with
  | nil => exact h'
  | cons hline _ ih =>
    rw [List.cons_append, List.append_assoc]
    exact .cons hline ih

theorem indented (h : Lines lines ls) : Lines (lines.map ("  " ++ ·)) ls := by
  induction h with
  | nil => exact .nil
  | cons hline _ ih => exact .cons hline.indented ih

/-- Lines of remarks spell nothing. -/
theorem remarks (h : ∀ line ∈ lines, Line line []) : Lines lines [] := by
  induction lines with
  | nil => exact .nil
  | cons line lines ih =>
    rw [List.forall_mem_cons] at h
    exact @cons line lines [] [] h.1 (ih h.2)

/-- The text of the lines spells their lexemes. -/
theorem spells (h : Lines lines ls) : Spells (lines.flatMap fun l => l.toList ++ ['\n']) ls := by
  induction h with
  | nil => exact .nil
  | @cons line lines ls ms hline _ ih =>
    rw [List.flatMap_cons, List.append_assoc]
    exact hline _ _ ih

end Lines

end ProtoSchema
