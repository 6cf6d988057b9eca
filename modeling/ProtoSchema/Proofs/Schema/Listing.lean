import ProtoSchema.Proofs.Grammar.Acceptance
import ProtoSchema.Proofs.Grammar.Refinement
import ProtoSchema.Proofs.Grammar.Refusal
import ProtoSchema.Proofs.Schema.Accepted

/-!
# Parsing and listing

Parsing has two sorts of outcomes: a file under the name that was given, or a fault that is reported
for it. A fault of a text that has a tree lies at the token that is to blame, and there are no
others: every numeral has a value, every escape has its characters, and every builder finds its
pieces (`SchemaFile.parse_outcome`).

A text that is parsed can be listed, and the tokens of its tree are those of the listing, except
that a keyword may be cut from a longer word where no name may stand (`SchemaFile.refines_of_parse`).
Both report the same illegal characters and unterminated strings, unless parsing ends before these
with a fault of the grammar (`SchemaFile.parse_agrees_with_listing`).
-/

namespace ProtoSchema

open Derivation (allPieces allTokens)

/-- Whether a problem is one of the text as it is read, from an illegal character to an unexpected
end. -/
def SourceProblem.isOfText : SourceProblem → Bool
  | unterminatedString | illegalCharacter _ | unexpectedToken .. | unexpectedEnd _ => true
  | _ => false

theorem Lexer.isOfText_faultAt (c : Cursor) : (faultAt c).problem.isOfText = true := by
  fun_cases faultAt c <;> rfl

theorem Machine.isOfText_faultAt (state : Nat) (c : Cursor) :
    (faultAt state c).problem.isOfText = true := by
  unfold faultAt
  split
  · rfl
  · exact Lexer.isOfText_faultAt _
  · exact Lexer.isOfText_faultAt _

/-- The machine has no other faults than those of reading. -/
theorem Machine.isOfText_of_run {c : Cursor} {stack : Stack} {last : Position} {fault : Fault}
    (h : run c stack last = .error fault) : fault.problem.isOfText = true := by
  fun_induction run c stack last with
  | case1 c stack last t behind hnext below target hsettle hlt ih => exact ih h
  | case4 => cases h
  | case7 c stack last cursor hnext =>
    obtain rfl := Except.error.inj h
    exact isOfText_faultAt _ _
  | case2 | case3 | case5 | case6 =>
    obtain rfl := Except.error.inj h
    rfl

/-- The faults of a text that has a tree are no faults of reading. -/
theorem Fault.isOfText_eq_false {tokens : List Token} {fault : Fault}
    (h : Token.IsFaulty tokens fault ∨ fault.IsOfField tokens) :
    fault.problem.isOfText = false := by
  rcases h with (⟨_, _, _, _, -, -, rfl⟩ | ⟨_, _, _, -, -, -, rfl⟩ | ⟨_, _, _, -, rfl⟩) | h
  · rfl
  · rfl
  · rfl
  · obtain ⟨_, -, -, h⟩ := h
    obtain ⟨problem, position⟩ := fault
    cases problem with
    | badMapKey | missingLabel | requiredField | groupField => rfl
    | _ => exact h.elim nofun nofun

namespace SchemaFile

/-- What becomes of a text that has a tree. -/
theorem parse_of_derive (name : Text) {text : List Char} {tree : Tree (.nonterminal .schemaFile)}
    (htree : derive text = .ok tree) :
    (∃ f, parse name text = .ok f ∧ f.name = name) ∨
      ∃ fault, parse name text = .error fault ∧
        (Token.IsFaulty tree.tokens fault ∨ fault.IsOfField tree.tokens) := by
  have hstated := tree.isStated_or_isFaulty (layout_of_derive htree).mem_language
  cases hvalue : tree.value with
  | error fault =>
    exact .inr ⟨fault, parse_of_value_error htree hvalue, .inl (hstated.2 fault hvalue)⟩
  | ok f =>
    cases hfault : f.fault? with
    | none => exact .inl ⟨_, parse_of_value_ok htree hvalue hfault, rfl⟩
    | some fault =>
      exact .inr ⟨fault, parse_of_fault? htree hvalue hfault,
        .inr (Tree.isOfField_of_fault? hvalue hfault)⟩

/-- Parsing gives a file of the given name, or a fault that is reported for it with its line and
column: a problem of the text where it is read, or one of an escape, of the dialect, of a package or
of a field, at the token that is to blame. Nothing else can go wrong: builders refuse only what is
such a fault, integers have values, and no escape is cut off by the end of its literal. -/
theorem parse_outcome (name : Text) (text : List Char) :
    ((∃ f, parse name text = .ok f ∧ f.name = name) ∨
      ∃ fault, parse name text = .error fault ∧
        (fault.report name).diagnostic.file = some name ∧
          (fault.report name).diagnostic.line = some (fault.position.line : Int) ∧
          (fault.report name).diagnostic.column = some (fault.position.column : Int) ∧
          (fault.report name).diagnostic.kind ∈ [DiagnosticKind.lexical, .grammar] ∧
            (fault.problem.isOfText = true ∨ ∃ tree, derive text = .ok tree ∧
              Layout .start text tree.tokens ∧
                (Token.IsFaulty tree.tokens fault ∨ fault.IsOfField tree.tokens))) ∧
      (∀ (p : Phrase) (way : Nat) (parts : List Derivation) (w : Wording) (ps : List Piece),
        Derives (.phrase p) [.phrase p way parts] →
          (∀ t ∈ allTokens parts, t.lexeme ∈ t.terminal.language) →
            p.wordings[way]? = some w → allPieces p.keepsAll parts = some ps →
              (∃ qs, w.build ps = some qs) ∨ p.Refuses ps) ∧
        (∀ l ∈ Lexeme.integers, ∃ n : Nat, parseInt l = .ok (n : Int)) ∧
          ∀ l ∈ Lexeme.strings, unescape l ≠ .error .unfinished := by
  refine ⟨?_, fun p way parts w ps h htokens hw hps => Phrase.builds_or_refuses h htokens hw hps,
    fun l hl => exists_parseInt hl, fun l hl => unescape_ne_unfinished hl⟩
  have hkind (fault : Fault) :
      (fault.report name).diagnostic.kind ∈ [DiagnosticKind.lexical, .grammar] := by
    cases hlexical : fault.problem.isLexical <;>
      simp [Fault.report, Report.diagnostic, Problem.kind, hlexical]
  cases htree : derive text with
  | error fault =>
    exact .inr ⟨fault, parse_of_derive_error htree, rfl, rfl, rfl, hkind fault,
      .inl (Machine.isOfText_of_run htree)⟩
  | ok tree =>
    obtain hfile | ⟨fault, hparse, hblame⟩ := parse_of_derive name htree
    · exact .inl hfile
    · exact .inr ⟨fault, hparse, rfl, rfl, rfl, hkind fault,
        .inr ⟨tree, rfl, layout_of_derive htree, hblame⟩⟩

end SchemaFile

open Token

/-! ## Listings of spaced texts -/

namespace Lexer

open Lexed

/-- A spaced text is listed as its lexemes. -/
theorem tokensFrom_spaced {ls : List Lexed} (hls : ∀ l ∈ ls, Proper l) (p : Position) :
    tokensFrom ⟨spaced ls, p⟩ = .ok (placed p ls) ∧
      ∀ q : Position, p = q.advance [' '] → tokensFrom ⟨behind ls, q⟩ = .ok (placed p ls) := by
  induction ls generalizing p with
  | nil => exact ⟨tokensFrom_of_finished next_nil, fun q _ => tokensFrom_of_finished next_nil⟩
  | cons l ls ih =>
    rw [List.forall_mem_cons] at hls
    have hnext : next (fun _ => true) ⟨spaced (l :: ls), p⟩ =
        .token ⟨l.1, l.2, p⟩ ⟨behind ls, p.advance l.2⟩ := next_spaced rfl hls.1
    have hrest := (ih hls.2 _).2 (p.advance l.2) (Position.advance_append _ _ _)
    refine ⟨?_, ?_⟩
    · rw [tokensFrom_of_token hnext, hrest]
      rfl
    · rintro q rfl
      rw [tokensFrom_of_token ((next_behind).trans hnext), hrest]
      rfl

end Lexer

namespace SchemaFile

/-- A text that is parsed can be listed, and the tokens that its tree derives are those of the
listing, except that a keyword may be read as a name, and that a word may be cut behind a keyword
that it opens with, if this keyword stands somewhere where no name may stand. -/
theorem refines_of_parse {name : Text} {text : List Char} {f : SchemaFile}
    (h : parse name text = .ok f) :
    ∃ tree us, derive text = .ok tree ∧ tokenize text = .ok us ∧ Refines tree.tokens us := by
  obtain ⟨tree, -, htree, -⟩ := exists_tree_of_parse h
  obtain ⟨us, hlisting, hrefines⟩ := refines_of_derive htree
  exact ⟨tree, us, htree, hlisting, hrefines⟩

/-! ### A message behind a glued keyword -/

/-- The lexemes behind the keyword of an empty message. -/
def fooAndBraces : List Lexed :=
  [(.name, ['F', 'o', 'o']), (.mark .lbrace, ['\x7b']), (.mark .rbrace, ['\x7d'])]

/-- The text `messageFoo { }`. -/
def gluedMessage : List Char := Keyword.kwMessage.spelling.toList ++ Lexed.spaced fooAndBraces

/-- The tree of this text. -/
def gluedMessageTree : Tree (.nonterminal .schemaFile) :=
  let keyword : Tree (.key .kwMessage) :=
    .leaf ⟨.keyword .kwMessage, ['m', 'e', 's', 's', 'a', 'g', 'e'], .start⟩
  let name : Tree (.part .name) :=
    .node ⟨.name, ⟨0, by decide⟩⟩ (.cons (.leaf ⟨.name, ['F', 'o', 'o'], ⟨1, 8⟩⟩) .nil)
  let opening : Tree (.mark .lbrace) := .leaf ⟨.mark .lbrace, ['\x7b'], ⟨1, 12⟩⟩
  let closing : Tree (.mark .rbrace) := .leaf ⟨.mark .rbrace, ['\x7d'], ⟨1, 14⟩⟩
  let message : Tree (.part .messageDecl) := .node ⟨.messageDecl, ⟨1, by decide⟩⟩
    (.cons keyword (.cons name (.cons opening (.cons closing .nil))))
  let item : Tree (.part .topItem) := .node ⟨.topItem, ⟨3, by decide⟩⟩ (.cons message .nil)
  .node .bareFile (.cons (.node .firstItem (.cons item .nil)) .nil)

theorem proper_fooAndBraces : ∀ l ∈ fooAndBraces, l.Proper := by
  have hlexed : ∀ l ∈ fooAndBraces, Lexer.lexed? (· = l.1) l.2 = some l ∧
      (l.1 = .name → Keyword.ofSpelling? l.2 = none) := by
    decide
  exact fun l hl => Lexed.proper_of_lexed? (hlexed l hl).1 (hlexed l hl).2

/-- A file does not open with a name. -/
theorem accepts_name_start : Automaton.accepts 0 .name = false := by
  rw [Bool.eq_false_iff]
  intro h
  exact absurd (Automaton.mem_nexts_of_accepts Exploration.start_of_complete h) (by decide +kernel)

theorem lexed?_gluedMessage {accept : Terminal → Bool} (hname : accept .name = false)
    (h : accept (.keyword .kwMessage) = true) :
    Lexer.lexed? accept gluedMessage =
      some (.keyword .kwMessage, Keyword.kwMessage.spelling.toList) := by
  have hprefix (k : Keyword) :
      (accept (.keyword k) && k.spelling.toList.isPrefixOf gluedMessage) = (k == .kwMessage) := by
    by_cases hk : k = .kwMessage
    · subst hk
      rw [h]
      decide
    · rw [beq_eq_false_iff_ne.mpr hk]
      revert hk
      cases k <;> first | exact fun hk => absurd rfl hk | exact fun _ => Bool.and_false _
  have hkeyword : Lexer.keyword? accept gluedMessage =
      some (.keyword .kwMessage, Keyword.kwMessage.spelling.toList) := by
    rw [Lexer.keyword?, funext hprefix]
    decide
  have hstart : Lexeme.isNameStart 'm' = true := by decide
  have hlexed := @Lexer.lexed?_of_isNameStart accept 'm' gluedMessage.tail hstart
  rw [hname, if_neg Bool.false_ne_true] at hlexed
  calc Lexer.lexed? accept gluedMessage
    _ = (Lexer.keyword? accept gluedMessage <|> Lexer.mark? accept gluedMessage) := hlexed
    _ = some (.keyword .kwMessage, Keyword.kwMessage.spelling.toList) := by rw [hkeyword]; rfl

theorem derive_gluedMessage : derive gluedMessage = .ok gluedMessageTree := by
  obtain ⟨top, hfeed, hend⟩ := gluedMessageTree.exists_feed_accept
  have htokens : gluedMessageTree.tokens =
      ⟨.keyword .kwMessage, Keyword.kwMessage.spelling.toList, .start⟩ ::
        Lexed.placed ⟨1, 8⟩ fooAndBraces := by
    decide
  rw [htokens, Stack.feed] at hfeed
  split at hfeed
  · next below target hsettle =>
    have haccept := Stack.accepts_of_settle_shift hsettle
    have hblank : (Cursor.ofText gluedMessage).skipBlanks = .ofText gluedMessage :=
      Cursor.skipBlanks_of_none (by decide)
    have hlexed : Lexer.lexed? (Automaton.accepts (Stack.state []))
        (Cursor.ofText gluedMessage).skipBlanks.rest =
          some (.keyword .kwMessage, Keyword.kwMessage.spelling.toList) := by
      rw [hblank]
      exact lexed?_gluedMessage accepts_name_start haccept
    have hnext := Lexer.next_of_lexed? hlexed
    rw [hblank] at hnext
    rw [derive, Machine.run_of_shift hnext hsettle]
    exact Machine.run_spaced proper_fooAndBraces hfeed hend
  · cases hfeed

/-- The lexemes in the listing of this text. -/
def gluedLexemes : List Lexed :=
  [(.name, ['m', 'e', 's', 's', 'a', 'g', 'e', 'F', 'o', 'o']), (.mark .lbrace, ['\x7b']),
   (.mark .rbrace, ['\x7d'])]

theorem tokenize_gluedMessage :
    tokenize gluedMessage = .ok (Lexed.placed .start gluedLexemes) := by
  have hlexed : ∀ l ∈ gluedLexemes, Lexer.lexed? (· = l.1) l.2 = some l ∧
      (l.1 = .name → Keyword.ofSpelling? l.2 = none) := by
    decide
  have htext : gluedMessage = Lexed.spaced gluedLexemes := by decide
  rw [htext]
  exact (Lexer.tokensFrom_spaced (fun l hl =>
    Lexed.proper_of_lexed? (hlexed l hl).1 (hlexed l hl).2) .start).1

theorem exists_parse_gluedMessage (name : Text) : ∃ f, parse name gluedMessage = .ok f := by
  have hvalue : gluedMessageTree.value = .ok
      ⟨"", .proto2, none, [], [⟨"Foo", [], [], [], [], [], [], [], [], [], ⟨1, 8⟩⟩], [], [], [],
        []⟩ := by
    with_unfolding_all rfl
  exact ⟨_, parse_of_value_ok derive_gluedMessage hvalue rfl⟩

/-- Parsing and listing do not always cut a text in the same places: a keyword may be recognised as
the front of a longer word. -/
theorem glued_keyword_parsed : ¬ ∀ (name : Text) (text : List Char) (f : SchemaFile),
    parse name text = .ok f → ∃ tree us, derive text = .ok tree ∧ tokenize text = .ok us ∧
      tree.tokens.map (fun t => (t.position, t.lexeme)) =
        us.map fun t => (t.position, t.lexeme) := by
  intro h
  obtain ⟨f, hparse⟩ := exists_parse_gluedMessage (Text.ofString "a.proto")
  obtain ⟨tree, us, htree, hus, heq⟩ := h _ _ f hparse
  obtain rfl := Except.ok.inj (derive_gluedMessage.symm.trans htree)
  obtain rfl := Except.ok.inj (tokenize_gluedMessage.symm.trans hus)
  exact absurd (congrArg List.length heq) (by decide)

theorem refines_of_parse_gluedMessage : ∃ f : SchemaFile,
    parse (Text.ofString "a.proto") gluedMessage = .ok f ∧
      ∃ tree us, derive gluedMessage = .ok tree ∧ tokenize gluedMessage = .ok us ∧
        Refines tree.tokens us := by
  obtain ⟨f, hparse⟩ := exists_parse_gluedMessage (Text.ofString "a.proto")
  exact ⟨f, hparse, refines_of_parse hparse⟩

/-! ## Faults -/

/-- Parsing and listing agree on what cannot be read. An illegal character or an unterminated string
that parsing reports is what the listing reports, and where the listing fails, parsing fails: in the
same way, or with a fault of the grammar that does not lie behind this place. -/
theorem parse_agrees_with_listing (name : Text) (text : List Char) :
    (∀ fault, parse name text = .error fault →
      (fault.problem = .unterminatedString ∨ ∃ c, fault.problem = .illegalCharacter c) →
        tokenize text = .error fault) ∧
      ∀ fault, tokenize text = .error fault → ∃ fault', parse name text = .error fault' ∧
        (fault' = fault ∨
          fault'.problem.isLexical = false ∧ fault'.position ≤ fault.position) := by
  refine ⟨fun fault hparse hproblem => ?_, fun fault hlisting => ?_⟩
  · have hreading : fault.problem.isOfText = true := by
      rcases hproblem with hproblem | ⟨c, hproblem⟩ <;> rw [hproblem] <;> rfl
    cases htree : derive text with
    | error fault' =>
      obtain rfl := Except.error.inj ((parse_of_derive_error htree).symm.trans hparse)
      refine (agrees_of_derive_error htree).resolve_right fun h => ?_
      rcases hproblem with hproblem | ⟨c, hproblem⟩ <;>
        · rw [hproblem] at h
          cases h.1
    | ok tree =>
      obtain ⟨f, hf, -⟩ | ⟨fault', hfault, hblame⟩ := parse_of_derive name htree
      · cases hf.symm.trans hparse
      · obtain rfl := Except.error.inj (hfault.symm.trans hparse)
        cases (Fault.isOfText_eq_false hblame).symm.trans hreading
  · cases htree : derive text with
    | error fault' =>
      refine ⟨fault', parse_of_derive_error htree, ?_⟩
      rcases agrees_of_derive_error htree with hsame | ⟨hlexical, hplace⟩
      · exact .inl (Except.error.inj (hsame.symm.trans hlisting))
      · exact .inr ⟨hlexical, hplace fault hlisting⟩
    | ok tree =>
      obtain ⟨us, hus, -⟩ := refines_of_derive htree
      cases hus.symm.trans hlisting

end SchemaFile

end ProtoSchema
