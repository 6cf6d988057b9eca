import ProtoSchema.Problem.Source
import ProtoSchema.Token.Basic
import ProtoSchema.Token.Lexeme

/-!
# Lexer

A scan reads one token at a cursor, given the set of terminals that may stand there. Where a name
may stand, a word is read as a whole and is a keyword only if that keyword may stand there too;
where no name may stand, a keyword is recognised as soon as the text opens with it. `tokenize`
scans a text with every terminal allowed everywhere.
-/

namespace ProtoSchema

/-- The unread part of a source text and where it starts. -/
structure Cursor where
  rest : List Char
  position : Position
  deriving DecidableEq, Repr

namespace Cursor

/-- The beginning of a text. -/
def ofText (text : List Char) : Cursor := ⟨text, .start⟩

/-- The cursor behind a lexeme. -/
def after (c : Cursor) (lexeme : List Char) : Cursor :=
  ⟨c.rest.drop lexeme.length, c.position.advance lexeme⟩

/-- Reading a lexeme leaves less of the text. -/
theorem length_after_lt {c : Cursor} {lexeme : List Char} (h : Lexeme.Opens lexeme c.rest) :
    (c.after lexeme).rest.length < c.rest.length :=
  h.length_drop_lt

/-- The cursor behind all blanks and comments. -/
def skipBlanks (c : Cursor) : Cursor :=
  match h : Lexeme.blank? c.rest with
  | some lexeme =>
    have := length_after_lt (Lexeme.blank?_opens h)
    (c.after lexeme).skipBlanks
  | none => c
  termination_by c.rest.length

/-- Skipping blanks never adds text. -/
theorem length_skipBlanks_le (c : Cursor) : c.skipBlanks.rest.length ≤ c.rest.length := by
  fun_induction skipBlanks c with
  | case1 c lexeme h hlt ih => exact Nat.le_trans ih (Nat.le_of_lt hlt)
  | case2 => exact Nat.le_refl _

end Cursor

/-- The classified lexeme at the front of a text. -/
abbrev Lexed := Terminal × List Char

namespace Lexer

/-- A word where a name may stand: one of the accepted keywords, or a name. -/
def word? (accept : Terminal → Bool) (cs : List Char) : Option Lexed :=
  (Lexeme.name? cs).map fun lexeme =>
    match Keyword.ofSpelling? lexeme with
    | some k => if accept (.keyword k) then (.keyword k, lexeme) else (.name, lexeme)
    | none => (.name, lexeme)

/-- The longest accepted keyword that the text opens with. -/
def keyword? (accept : Terminal → Bool) (cs : List Char) : Option Lexed :=
  (Keyword.all.find? fun k => accept (.keyword k) && k.spelling.toList.isPrefixOf cs).map
    fun k => (.keyword k, k.spelling.toList)

/-- The accepted mark that the text opens with. -/
def mark? (accept : Terminal → Bool) : List Char → Option Lexed
  | c :: _ =>
    (Mark.all.find? fun m => accept (.mark m) && m.character == c).map fun m => (.mark m, [c])
  | [] => none

/-- Reads a lexeme of one class, where that class is accepted. -/
def ofClass? (accept : Terminal → Bool) (t : Terminal)
    (read : List Char → Option (List Char)) (cs : List Char) : Option Lexed :=
  if accept t then (read cs).map fun lexeme => (t, lexeme) else none

/-- The accepted terminal that stands at the front of a text. The classes are tried in a fixed
order: numbers with a point or exponent before integers, and marks last. -/
def lexed? (accept : Terminal → Bool) (cs : List Char) : Option Lexed :=
  ofClass? accept .float Lexeme.float? cs <|>
  ofClass? accept .int Lexeme.int? cs <|>
  ofClass? accept .string Lexeme.string? cs <|>
  (if accept .name then word? accept cs else keyword? accept cs) <|>
  mark? accept cs

theorem ofClass?_opens {accept : Terminal → Bool} {t : Terminal}
    {read : List Char → Option (List Char)} {cs : List Char} {l : Lexed}
    (hread : ∀ {l}, read cs = some l → Lexeme.Opens l cs)
    (h : ofClass? accept t read cs = some l) : Lexeme.Opens l.2 cs := by
  unfold ofClass? at h
  split at h
  · obtain ⟨m, hm, rfl⟩ := Option.map_eq_some_iff.mp h
    exact hread hm
  · cases h

theorem word?_opens {accept : Terminal → Bool} {cs : List Char} {l : Lexed}
    (h : word? accept cs = some l) : Lexeme.Opens l.2 cs := by
  obtain ⟨m, hm, rfl⟩ := Option.map_eq_some_iff.mp h
  have hopens := Lexeme.name?_opens hm
  split
  · split <;> exact hopens
  · exact hopens

theorem keyword?_opens {accept : Terminal → Bool} {cs : List Char} {l : Lexed}
    (h : keyword? accept cs = some l) : Lexeme.Opens l.2 cs := by
  obtain ⟨k, hk, rfl⟩ := Option.map_eq_some_iff.mp h
  have hp := List.find?_some hk
  simp only [Bool.and_eq_true] at hp
  refine ⟨List.isPrefixOf_iff_prefix.mp hp.2, ?_⟩
  cases k <;> simp [Keyword.spelling]

theorem mark?_opens {accept : Terminal → Bool} {cs : List Char} {l : Lexed}
    (h : mark? accept cs = some l) : Lexeme.Opens l.2 cs := by
  unfold mark? at h
  split at h
  · obtain ⟨m, hm, rfl⟩ := Option.map_eq_some_iff.mp h
    exact ⟨⟨_, rfl⟩, by simp⟩
  · cases h

/-- Whatever is read is a lexeme of the text. -/
theorem lexed?_opens {accept : Terminal → Bool} {cs : List Char} {l : Lexed}
    (h : lexed? accept cs = some l) : Lexeme.Opens l.2 cs := by
  simp only [lexed?, Option.orElse_eq_orElse, Option.orElse_eq_or, Option.or_eq_some_iff] at h
  rcases h with h | ⟨-, h | ⟨-, h | ⟨-, h | ⟨-, h⟩⟩⟩⟩
  · exact ofClass?_opens Lexeme.float?_opens h
  · exact ofClass?_opens Lexeme.int?_opens h
  · exact ofClass?_opens Lexeme.string?_opens h
  · split at h
    · exact word?_opens h
    · exact keyword?_opens h
  · exact mark?_opens h

/-- What a scan finds: a token and the cursor behind it, the end of the text, or a place where no
accepted terminal stands. -/
inductive Scan
  | token (t : Token) (behind : Cursor)
  | finished (cursor : Cursor)
  | stuck (cursor : Cursor)
  deriving DecidableEq, Repr

/-- Scans for the next token. -/
def next (accept : Terminal → Bool) (c : Cursor) : Scan :=
  let c := c.skipBlanks
  if c.rest = [] then .finished c
  else
    match lexed? accept c.rest with
    | some (terminal, lexeme) => .token ⟨terminal, lexeme, c.position⟩ (c.after lexeme)
    | none => .stuck c

/-- A token takes up text. -/
theorem length_lt_of_next {accept : Terminal → Bool} {c behind : Cursor} {t : Token}
    (h : next accept c = .token t behind) : behind.rest.length < c.rest.length := by
  unfold next at h
  simp only at h
  split at h
  · cases h
  · split at h
    · rename_i hl
      cases h
      exact Nat.lt_of_lt_of_le (Cursor.length_after_lt (lexed?_opens hl))
        c.length_skipBlanks_le
    · cases h

/-- The fault of a place where no terminal at all stands. -/
def faultAt (c : Cursor) : Fault :=
  match c.rest with
  | '"' :: _ | '\'' :: _ => ⟨.unterminatedString, c.position⟩
  | ch :: _ => ⟨.illegalCharacter ch, c.position⟩
  | [] => ⟨.unexpectedEnd [], c.position⟩

/-- The tokens from a cursor to the end of the text. -/
def tokensFrom (c : Cursor) : Except Fault (List Token) :=
  match h : next (fun _ => true) c with
  | .token t behind =>
    have := length_lt_of_next h
    (tokensFrom behind).map (t :: ·)
  | .finished _ => .ok []
  | .stuck c => .error (faultAt c)
  termination_by c.rest.length

end Lexer

/-- The tokens of a text. -/
def tokenize (text : List Char) : Except Fault (List Token) := Lexer.tokensFrom (.ofText text)

/-- The listing of the tokens of a text, ended by an entry for the end of the text. -/
def tokenEntries (text : List Char) : Except Fault (List TokenEntry) :=
  (tokenize text).map fun tokens =>
    tokens.map Token.entry ++ [⟨.eof, "", Position.start.advance text⟩]

end ProtoSchema
