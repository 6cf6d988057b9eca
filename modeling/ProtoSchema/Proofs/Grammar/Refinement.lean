import ProtoSchema.Proofs.Grammar.Derivation
import ProtoSchema.Proofs.Grammar.Viability
import ProtoSchema.Proofs.Token.Cut

/-!
# Derivations and listings

The machine asks for the tokens that its state accepts, and a listing of the tokens of a text asks
for all of them. The two go over the text side by side (`Machine.agrees_of_run`): inside of a word
that opens with a keyword the machine may read several tokens where the listing has one, and behind
the digits in front of a point or an exponent it stops. So a tree has the tokens of the listing, or
pieces of them, and the two agree on the first illegal character unless the machine stops before it.
-/

namespace ProtoSchema

namespace Token

/-- Tokens that make up a text, one right behind the other. -/
inductive Adjacent : Position → List Char → List Token → Prop
  | nil {p : Position} : Adjacent p [] []
  | cons {p : Position} {t : Token} {ts : List Token} {cs : List Char} (hposition : t.position = p)
      (hne : t.lexeme ≠ []) (hrest : Adjacent (p.advance t.lexeme) cs ts) :
      Adjacent p (t.lexeme ++ cs) (t :: ts)

theorem Adjacent.eq_nil_iff {p : Position} {cs : List Char} {ts : List Token}
    (h : Adjacent p cs ts) : ts = [] ↔ cs = [] := by
  cases h with
  | nil => exact iff_of_true rfl rfl
  | cons hposition hne => simp [hne]

/-- The tokens of a tree that stand for one token of a listing: this token, where a keyword may be
read as a name, or pieces of a word of which the first is a keyword that stands somewhere where no
name may stand. -/
inductive Divides (u : Token) : List Token → Prop
  | whole {t : Token} (hposition : t.position = u.position) (hlexeme : t.lexeme = u.lexeme)
      (hterminal : u.terminal = t.terminal ∨ t.terminal = .name ∧ ∃ k, u.terminal = .keyword k) :
      Divides u [t]
  | glued {t : Token} {ts : List Token} (k : Keyword) (hkeyword : t.terminal = .keyword k)
      (hunguarded : k ∈ Keyword.unguarded) (hword : u.terminal.isWord = true) (hne : ts ≠ [])
      (hpieces : Adjacent u.position u.lexeme (t :: ts)) : Divides u (t :: ts)

/-- The tokens of a tree next to those of a listing: group by group, they stand for these. -/
inductive Refines : List Token → List Token → Prop
  | nil : Refines [] []
  | cons {u : Token} {us group ts : List Token} (hgroup : Divides u group)
      (hrest : Refines ts us) : Refines (group ++ ts) (u :: us)

end Token

open Token

namespace Machine

/-- How the result of the machine, which has read some tokens and stands inside of a word, lies to
the listing of the tokens behind the word: a tree derives the pieces of what is left of the word and
then the tokens of the listing, and a fault is that of the listing or one of the grammar that lies
before it. -/
def Agrees (before : List Token) (p : Position) (inner : List Char)
    (listing : Except Fault (List Token)) :
    Except Fault (Tree (.nonterminal .schemaFile)) → Prop
  | .ok tree => ∃ pieces read us, tree.tokens = before ++ (pieces ++ read) ∧
      Adjacent p inner pieces ∧ listing = .ok us ∧ Refines read us
  | .error fault => listing = .error fault ∨ fault.problem.isLexical = false ∧
      ∀ fault', listing = .error fault' → fault.position ≤ fault'.position

variable {before : List Token} {p q : Position} {inner rest : List Char} {t u : Token}
  {listing : Except Fault (List Token)} {result : Except Fault (Tree (.nonterminal .schemaFile))}

/-- A piece of the word has been read. -/
theorem Agrees.piece (h : Agrees (before ++ [t]) (p.advance t.lexeme) rest listing result)
    (hposition : t.position = p) (hne : t.lexeme ≠ []) :
    Agrees before p (t.lexeme ++ rest) listing result := by
  cases result with
  | error fault => exact h
  | ok tree =>
    obtain ⟨pieces, read, us, htokens, hpieces, hlisting, hread⟩ := h
    exact ⟨t :: pieces, read, us, by simp [htokens], .cons hposition hne hpieces, hlisting, hread⟩

/-- A token has been read that opens a token of the listing. -/
theorem Agrees.token (h : Agrees (before ++ [t]) p inner listing result)
    (hdivides : ∀ pieces, Adjacent p inner pieces → Divides u (t :: pieces)) :
    Agrees before q [] (listing.map (u :: ·)) result := by
  cases result with
  | ok tree =>
    obtain ⟨pieces, read, us, htokens, hpieces, rfl, hread⟩ := h
    refine ⟨[], (t :: pieces) ++ read, u :: us, by simp [htokens], .nil, rfl, ?_⟩
    exact .cons (hdivides pieces hpieces) hread
  | error fault =>
    cases listing with
    | ok us => exact h.imp nofun fun h => ⟨h.1, nofun⟩
    | error fault' => exact h

/-- The machine has stopped in front of everything that a listing goes on with. -/
theorem Agrees.of_error {fault : Fault} (hlexical : fault.problem.isLexical = false)
    (hplace : ∀ fault', listing = .error fault' → fault.position ≤ fault'.position) :
    Agrees before p inner (listing.map (u :: ·)) (.error fault) := by
  refine .inr ⟨hlexical, fun fault' hfault' => ?_⟩
  cases listing with
  | ok us => cases hfault'
  | error fault'' => exact hplace fault' hfault'

variable {c : Cursor}

/-- Inside of words and numbers there are no blanks. -/
theorem skipBlanks_of_part {x : Char} (hx : Lexeme.isNamePart x = true ∨ x = '.') {xs : List Char}
    (hrest : c.rest = x :: xs) : c.skipBlanks = c := by
  refine Cursor.skipBlanks_of_none ?_
  rw [hrest]
  refine Lexeme.blank?_eq_none ?_ ?_
  · rw [Bool.eq_false_iff]
    intro hblank
    simp only [Lexeme.isBlank, decide_eq_true_eq] at hblank
    rcases hblank with rfl | rfl | rfl | rfl | rfl <;> exact absurd hx (by decide)
  · rintro rfl
    exact absurd hx (by decide)

/-- Inside of words and numbers the machine stops at an unexpected token. -/
theorem faultAt_of_part {x : Char} (hx : Lexeme.isNamePart x = true ∨ x = '.') {xs : List Char}
    (hrest : c.rest = x :: xs) (state : Nat) :
    (faultAt state c).problem.isLexical = false ∧ (faultAt state c).position = c.position := by
  have hskip := skipBlanks_of_part hx hrest
  obtain ⟨m, hm⟩ := Lexer.exists_lexed?_of_part hx xs
  rw [← hrest] at hm
  have hnext : Lexer.next (fun _ => true) c = .token ⟨m.1, m.2, c.position⟩ (c.after m.2) := by
    rw [← hskip] at hm ⊢
    rw [Lexer.next_of_lexed? (by rwa [Cursor.skipBlanks_skipBlanks]), Cursor.skipBlanks_skipBlanks]
  rw [faultAt, hnext]
  exact ⟨rfl, rfl⟩

/-- The machine stops where no accepted terminal stands. -/
theorem run_of_stuck {stack : Stack} {last : Position} {cursor : Cursor}
    (h : Lexer.next (Automaton.accepts stack.state) c = .stuck cursor) :
    run c stack last = .error (faultAt stack.state cursor) := by
  rw [run]
  split
  · next hnext => cases h.symm.trans hnext
  · next hnext => cases h.symm.trans hnext
  · next hnext =>
    obtain rfl := Lexer.Scan.stuck.inj (h.symm.trans hnext)
    rfl

end Machine

/-- What may be accepted behind the front of a number opens with nothing that goes on with it. -/
theorem Terminal.notMem_language_of_rival? {s t : Terminal} {nexts : List Terminal}
    (hrival : s.rival? = some (.float, nexts)) (ht : t ∈ nexts) {x : Char}
    (hx : x.isDigit = true ∨ s = .int ∧ (x = '.' ∨ x = 'e' ∨ x = 'E')) (cs : List Char) :
    x :: cs ∉ t.language := by
  have hfirst {y : Char} {ys : List Char} (h : x :: cs ∈ Lexeme.word (y :: ys)) : x = y :=
    (List.cons.inj h).1
  intro h
  revert hrival
  fun_cases rival? s with
  | case1 =>
    rintro ⟨⟩
    simp only [List.mem_cons, List.not_mem_nil, or_false] at ht
    rcases ht with rfl | rfl | rfl | rfl | rfl <;>
      · obtain rfl := hfirst h
        revert hx
        decide
  | case2 =>
    rintro ⟨⟩
    have hdigit := hx.resolve_right fun h => nomatch h.1
    simp only [List.mem_cons, List.not_mem_nil, or_false] at ht
    rcases ht with rfl | rfl
    · obtain ⟨_, _, heq, hstart, -⟩ := Lexeme.exists_of_mem_names h
      obtain rfl := (List.cons.inj heq).1
      exact absurd (Lexeme.ne_of_isNameStart hstart).1 (by rw [hdigit]; decide)
    · obtain rfl := hfirst h
      exact absurd hdigit (by decide)
  | case3 => rintro ⟨⟩
  | case4 => rintro ⟨⟩

namespace Machine

variable {c : Cursor} {stack below : Stack} {j : Nat} {t : Token}

/-- Where a number with a point or an exponent is not accepted, the machine stops behind the
integer or the point that it opens with. -/
theorem exists_fault_behind {s : Terminal} (hs : s = .int ∨ s = .mark .dot)
    (hvalid : stack.Valid) (hsettle : stack.settle (some s) = .shift below j)
    (hfloat : Automaton.accepts stack.state .float = false) {x : Char} {rest : List Char}
    (hrest : c.rest = x :: rest)
    (hx : x.isDigit = true ∨ s = .int ∧ (x = '.' ∨ x = 'e' ∨ x = 'E')) (tree : Tree (.terminal s))
    (last : Position) :
    ∃ fault, run c (⟨j, _, tree⟩ :: below) last = .error fault ∧
      fault.problem.isLexical = false ∧ fault.position = c.position := by
  obtain ⟨nexts, hrival⟩ : ∃ nexts, s.rival? = some (.float, nexts) := by
    rcases hs with rfl | rfl <;> exact ⟨_, rfl⟩
  have hpart : Lexeme.isNamePart x = true ∨ x = '.' := by
    rcases hx with hdigit | ⟨-, rfl | rfl | rfl⟩
    · exact .inl (Lexeme.isNamePart_of_isDigit hdigit)
    · exact .inr rfl
    · exact .inl (by decide)
    · exact .inl (by decide)
  have hskip := skipBlanks_of_part hpart hrest
  have hnone : Lexer.lexed? (Automaton.accepts j) (x :: rest) = none :=
    Lexer.lexed?_eq_none (fun t ht => Terminal.notMem_language_of_rival? hrival
      (Stack.mem_of_accepts_shift hvalid hsettle hrival hfloat ht) hx) rest
  have hstuck : Lexer.next (Automaton.accepts j) c = .stuck c.skipBlanks :=
    Lexer.next_of_none (by rw [hskip, hrest]; exact List.cons_ne_nil x rest)
      (by rw [hskip, hrest, hnone])
  rw [hskip] at hstuck
  exact ⟨_, run_of_stuck hstuck, faultAt_of_part hpart hrest j⟩

/-- What is left of a word that the machine has begun, and the text behind it. In a word, numbers
with a point or an exponent are not accepted. -/
structure Inside (c : Cursor) (stack : Stack) (inner tail : List Char) : Prop where
  rest : c.rest = inner ++ tail
  word : Lexeme.WordRest inner tail
  refuses : inner ≠ [] → Automaton.accepts stack.state .float = false

/-- A listing goes on behind the word. -/
def listing (c : Cursor) (inner tail : List Char) : Except Fault (List Token) :=
  Lexer.tokensFrom ⟨tail, c.position.advance inner⟩

variable {inner tail : List Char} {cursor behind : Cursor} {last : Position}

theorem Inside.skipBlanks (h : Inside c stack inner tail) (hinner : inner ≠ []) :
    c.skipBlanks = c := by
  obtain ⟨x, xs, rfl⟩ := List.exists_cons_of_ne_nil hinner
  exact skipBlanks_of_part (.inl (h.word.parts x List.mem_cons_self)) h.rest

theorem listing_rest (c : Cursor) : listing c [] c.rest = Lexer.tokensFrom c := rfl

theorem Inside.listing_nil (h : Inside c stack [] tail) :
    listing c [] tail = Lexer.tokensFrom c := by
  rw [← listing_rest, h.rest, List.nil_append]

/-- The machine stands between two tokens of the listing. -/
theorem Inside.between (c : Cursor) (stack : Stack) : Inside c stack [] c.rest :=
  ⟨rfl, ⟨List.forall_mem_nil _, fun h => absurd rfl h⟩, fun h => absurd rfl h⟩

/-- The listing fails at no place that has been read. -/
theorem Inside.position_le (h : Inside c stack inner tail) {fault : Fault}
    (hfault : listing c inner tail = .error fault) : c.skipBlanks.position ≤ fault.position := by
  by_cases hinner : inner = []
  · subst hinner
    rw [h.listing_nil] at hfault
    exact Lexer.position_le_of_tokensFrom hfault
  · rw [h.skipBlanks hinner]
    exact (c.position.le_advance inner).trans
      ((Cursor.position_le_skipBlanks _).trans (Lexer.position_le_of_tokensFrom hfault))

/-- The machine stops for the reason that the listing does, or at an unexpected token. -/
theorem Inside.agrees_of_stuck (h : Inside c stack inner tail) {before : List Token}
    (hstuck : Lexer.next (Automaton.accepts stack.state) c = .stuck cursor) :
    Agrees before c.position inner (listing c inner tail)
      (.error (faultAt stack.state cursor)) := by
  obtain ⟨rfl, hne⟩ := Lexer.eq_of_next_stuck hstuck
  by_cases hinner : inner = []
  · subst hinner
    have hposition {fault : Fault} (hfault : listing c [] tail = .error fault) :=
      h.position_le hfault
    rw [h.listing_nil] at hposition ⊢
    rw [faultAt, Lexer.next_skipBlanks]
    cases hall : Lexer.next (fun _ => true) c with
    | token u behind =>
      obtain ⟨-, hu, -⟩ := Lexer.exists_of_next_token hall
      exact .inr ⟨rfl, fun fault hfault => hu.le.trans (hposition hfault)⟩
    | finished cursor =>
      obtain ⟨rfl, hnil⟩ := Lexer.eq_of_next_finished hall
      exact absurd hnil hne
    | stuck cursor => exact .inl (Lexer.tokensFrom_of_stuck hall)
  · obtain ⟨x, xs, rfl⟩ := List.exists_cons_of_ne_nil hinner
    have hskip := h.skipBlanks hinner
    obtain ⟨hlexical, hplace⟩ :=
      faultAt_of_part (.inl (h.word.parts x List.mem_cons_self)) h.rest stack.state
    rw [hskip]
    refine .inr ⟨hlexical, fun fault hfault => ?_⟩
    rw [hplace, ← hskip]
    exact h.position_le hfault

/-- Behind a keyword no number with a point or an exponent is accepted where names were refused
before. -/
theorem accepts_float_of_keyword {k : Keyword} (hvalid : stack.Valid)
    (hsettle : stack.settle (some (.keyword k)) = .shift below j)
    (hname : Automaton.accepts stack.state .name = false) :
    Automaton.accepts j .float = false := by
  rw [Bool.eq_false_iff]
  intro hfloat
  exact absurd (Stack.mem_of_accepts_shift hvalid hsettle rfl hname hfloat) (by decide)

/-- Behind an integer neither, where they were refused before. -/
theorem accepts_float_of_int (hvalid : stack.Valid)
    (hsettle : stack.settle (some .int) = .shift below j)
    (hfloat : Automaton.accepts stack.state .float = false) :
    Automaton.accepts j .float = false := by
  rw [Bool.eq_false_iff]
  intro haccept
  exact absurd (Stack.mem_of_accepts_shift hvalid hsettle rfl hfloat haccept) (by decide)

/-- At the end of the text no word is left, and the listing ends as well. -/
theorem Inside.eq_nil_of_finished (h : Inside c stack inner tail)
    (hnext : Lexer.next (Automaton.accepts stack.state) c = .finished cursor) :
    inner = [] ∧ listing c inner tail = .ok [] := by
  obtain ⟨rfl, hnil⟩ := Lexer.eq_of_next_finished hnext
  have hinner : inner = [] := by
    by_contra hinner
    rw [h.skipBlanks hinner, h.rest] at hnil
    exact hinner (List.append_eq_nil_iff.mp hnil).1
  subst hinner
  exact ⟨rfl, h.listing_nil.trans (Lexer.tokensFrom_of_finished (Lexer.next_of_nil hnil))⟩

/-- The machine behind a token goes on as the listing does, whatever is left of a word there. -/
def GoesOn (before : List Token) (behind : Cursor) (stack : Stack)
    (result : Except Fault (Tree (.nonterminal .schemaFile))) : Prop :=
  ∀ {inner tail : List Char}, Inside behind stack inner tail →
    Agrees before behind.position inner (listing behind inner tail) result

section

variable (hvalid : stack.Valid) (hsettle : stack.settle (some t.terminal) = .shift below j)
  (hlexed : Lexer.lexed? (Automaton.accepts stack.state) c.skipBlanks.rest =
    some (t.terminal, t.lexeme)) (hplace : t.position = c.skipBlanks.position)
  (ih : GoesOn (stack.tokens ++ [t]) (c.skipBlanks.after t.lexeme) (⟨j, _, .leaf t⟩ :: below)
    (run (c.skipBlanks.after t.lexeme) (⟨j, _, .leaf t⟩ :: below) t.position))

include hvalid hsettle hlexed hplace ih

/-- A token that the machine finds between two tokens of the listing: that of the listing, the front
of a number that is not accepted, or the keyword that a word opens with. -/
theorem agrees_between : Agrees stack.tokens c.position [] (Lexer.tokensFrom c)
    (run (c.skipBlanks.after t.lexeme) (⟨j, _, .leaf t⟩ :: below) t.position) := by
  obtain ⟨m, hm, hcut⟩ := Lexer.exists_cut hlexed
  rw [Lexer.tokensFrom_of_token (Lexer.next_of_lexed? hm)]
  cases hcut with
  | whole hlexeme hterminal =>
    rw [hlexeme]
    have hagrees := ih (.between _ _)
    rw [listing_rest] at hagrees
    refine hagrees.token fun pieces hpieces => ?_
    obtain rfl := hpieces.eq_nil_iff.mpr rfl
    exact .whole hplace rfl hterminal
  | number hterminal hfloat hfront x rest hrest hx =>
    have hbehind : (c.skipBlanks.after t.lexeme).rest = x :: rest := by
      rw [Cursor.after, hrest, List.drop_left]
    obtain ⟨fault, hfault, hlexical, hposition⟩ :=
      exists_fault_behind hterminal hvalid hsettle hfloat hbehind hx (.leaf t) t.position
    rw [hfault]
    refine .of_error hlexical fun fault' hfault' => ?_
    calc fault.position
      _ = c.skipBlanks.position.advance t.lexeme := hposition
      _ ≤ c.skipBlanks.position.advance m.2 := Position.advance_le_of_prefix _ hfront
      _ ≤ _ := Cursor.position_le_skipBlanks (c.skipBlanks.after m.2)
      _ ≤ fault'.position := Lexer.position_le_of_tokensFrom hfault'
  | word k hterminal hname hword inner tail hinner hrest hlexeme hcs =>
    have hterminal : t.terminal = .keyword k := hterminal
    have hlexeme : m.2 = t.lexeme ++ inner := hlexeme
    have hbehind : (c.skipBlanks.after t.lexeme).rest = inner ++ tail := by
      rw [Cursor.after, hcs, hlexeme, List.append_assoc, List.drop_left]
    have hagrees := ih ⟨hbehind, hrest, fun _ =>
      accepts_float_of_keyword hvalid (hterminal ▸ hsettle) hname⟩
    have hlisting : listing (c.skipBlanks.after t.lexeme) inner tail =
        Lexer.tokensFrom (c.skipBlanks.after m.2) := by
      rw [listing, Cursor.after, Cursor.after, hcs, List.drop_left, hlexeme,
        Position.advance_append]
    rw [hlisting] at hagrees
    refine hagrees.token fun pieces hpieces => ?_
    have hunguarded := Stack.mem_unguarded_of_shift hvalid (hterminal ▸ hsettle) hname
    refine .glued k hterminal hunguarded hword
      (fun hnil => hinner (hpieces.eq_nil_iff.mp hnil)) ?_
    rw [hlexeme]
    exact .cons hplace (Lexer.lexed?_opens hlexed).2 hpieces

/-- A token that the machine finds inside of a word: a piece of what is left of it. -/
theorem agrees_inside (h : Inside c stack inner tail) (hinner : inner ≠ []) :
    Agrees stack.tokens c.position inner (listing c inner tail)
      (run (c.skipBlanks.after t.lexeme) (⟨j, _, .leaf t⟩ :: below) t.position) := by
  rw [h.skipBlanks hinner] at hlexed hplace ih ⊢
  have hne : t.lexeme ≠ [] := (Lexer.lexed?_opens hlexed).2
  rw [h.rest] at hlexed
  obtain ⟨rest, hsplit, hpiece⟩ := Lexer.exists_piece hlexed h.word hinner (h.refuses hinner)
  obtain rfl : inner = t.lexeme ++ rest := hsplit
  have hbehind : (c.after t.lexeme).rest = rest ++ tail := by
    rw [Cursor.after, h.rest, List.append_assoc, List.drop_left]
  have hword : Lexeme.WordRest rest tail :=
    ⟨fun x hx => h.word.parts x (List.mem_append_right _ hx), fun _ => h.word.ends hinner⟩
  have hfloat (hrest : rest ≠ []) : Automaton.accepts j .float = false := by
    rcases hpiece with hnil | hint | ⟨k, hkeyword, hname⟩
    · exact absurd hnil hrest
    · have hint : t.terminal = .int := hint
      exact accepts_float_of_int hvalid (hint ▸ hsettle) (h.refuses hinner)
    · have hkeyword : t.terminal = .keyword k := hkeyword
      exact accepts_float_of_keyword hvalid (hkeyword ▸ hsettle) hname
  have hagrees := ih ⟨hbehind, hword, hfloat⟩
  have hlisting : listing (c.after t.lexeme) rest tail = listing c (t.lexeme ++ rest) tail := by
    rw [listing, listing, Position.advance_append]
    rfl
  rw [hlisting] at hagrees
  exact hagrees.piece hplace hne

end

/-- The machine and the listing go over a text side by side. -/
theorem agrees_of_run (h : Inside c stack inner tail) (hvalid : stack.Valid) :
    Agrees stack.tokens c.position inner (listing c inner tail) (run c stack last) := by
  fun_induction run c stack last generalizing inner tail with
  | case1 c stack last t behind hnext below target hsettle hlt ih =>
    obtain ⟨hlexed, hplace, rfl⟩ := Lexer.exists_of_next_token hnext
    obtain ⟨hbelow, htarget⟩ := hvalid.of_settle hsettle
    have hderives : below.tokens = stack.tokens := by
      have hderives := stack.derives_settle (some t.terminal)
      rwa [hsettle] at hderives
    have hgoesOn : GoesOn (stack.tokens ++ [t]) (c.skipBlanks.after t.lexeme)
        (⟨target, _, .leaf t⟩ :: below)
        (run (c.skipBlanks.after t.lexeme) (⟨target, _, .leaf t⟩ :: below) t.position) := by
      intro inner tail h'
      have hagrees := ih h' ⟨htarget, hbelow⟩
      rwa [Stack.tokens_cons, hderives] at hagrees
    by_cases hinner : inner = []
    · subst hinner
      rw [h.listing_nil]
      exact agrees_between hvalid hsettle hlexed hplace hgoesOn
    · exact agrees_inside hvalid hsettle hlexed hplace hgoesOn h hinner
  | case4 c stack last cursor hnext tree hsettle =>
    obtain ⟨rfl, hend⟩ := h.eq_nil_of_finished hnext
    have hderives := stack.derives_settle none
    rw [hsettle] at hderives
    exact ⟨[], [], [], hderives.trans (List.append_nil _).symm, .nil, hend, .nil⟩
  | case7 c stack last cursor hnext => exact h.agrees_of_stuck hnext
  | case2 c stack last t behind hnext | case3 c stack last t behind hnext =>
    obtain ⟨-, hplace, -⟩ := Lexer.exists_of_next_token hnext
    exact .inr ⟨rfl, fun fault hfault => hplace.le.trans (h.position_le hfault)⟩
  | case5 c stack last cursor hnext | case6 c stack last cursor hnext =>
    obtain ⟨rfl, hend⟩ := h.eq_nil_of_finished hnext
    exact .inr ⟨rfl, fun fault hfault => absurd (hend.symm.trans hfault) (by simp)⟩

end Machine

/-- What becomes of a text that has a tree: it has a listing, and the tokens of the tree stand for
those of the listing. -/
theorem refines_of_derive {text : List Char} {tree : Tree (.nonterminal .schemaFile)}
    (h : derive text = .ok tree) : ∃ us, tokenize text = .ok us ∧ Refines tree.tokens us := by
  have hagrees : Machine.Agrees [] .start [] (tokenize text) (derive text) :=
    Machine.agrees_of_run (.between (.ofText text) []) trivial
  rw [h] at hagrees
  obtain ⟨pieces, read, us, htokens, hpieces, hlisting, hread⟩ := hagrees
  obtain rfl := hpieces.eq_nil_iff.mpr rfl
  exact ⟨us, hlisting, by rwa [htokens]⟩

/-- What becomes of a text that has no tree: the listing has the same fault, or the fault is one of
the grammar and the listing fails behind it or not at all. -/
theorem agrees_of_derive_error {text : List Char} {fault : Fault} (h : derive text = .error fault) :
    tokenize text = .error fault ∨ fault.problem.isLexical = false ∧
      ∀ fault', tokenize text = .error fault' → fault.position ≤ fault'.position := by
  have hagrees : Machine.Agrees [] .start [] (tokenize text) (derive text) :=
    Machine.agrees_of_run (.between (.ofText text) []) trivial
  rwa [h] at hagrees

end ProtoSchema
