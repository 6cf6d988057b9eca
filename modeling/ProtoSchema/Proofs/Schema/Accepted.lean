import ProtoSchema.Problem.Report
import ProtoSchema.Proofs.Grammar.Acceptance
import ProtoSchema.Proofs.Grammar.Agreement
import ProtoSchema.Proofs.Schema.Faults
import ProtoSchema.Proofs.Schema.Fields
import ProtoSchema.Proofs.Schema.Parsed

/-!
# Parsed texts and derived texts

The parser is sound for the grammar: whatever file it makes of a text is what the builders of the
phrases make of some tokens whose lexemes, with gaps around them, are the text
(`SchemaFile.reads_of_parse`). It is complete as well: the text of the lexemes of a derivation, with
single spaces between them, is parsed as what is built along this derivation, unless the dialect is
unknown, there is a second package, or a field breaks a rule of the dialect
(`SchemaFile.parse_spaced`). So no tokens have two derivations.
-/

namespace ProtoSchema

/-! ## From parsed files to phrases -/

namespace SchemaFile

/-- A semicolon stands for a file without declarations. -/
theorem parse_semicolon (name : Text) :
    parse name [';'] = .ok ⟨name, .proto2, none, [], [], [], [], [], []⟩ := by
  have hvalue : emptyStatementTree.value =
      .ok ⟨"", .proto2, none, [], [], [], [], [], []⟩ := by
    with_unfolding_all rfl
  rw [parse, derive_semicolon]
  simp only [bind, Except.bind, hvalue]
  rfl

end SchemaFile

open Derivation (allPieces allTokens)

/-! ## From trees to files -/

/-- A file is built along the outline of a tree of it. -/
theorem Tree.pieces_of_value {tree : Tree (.nonterminal .schemaFile)} {d : Derivation}
    (houtline : tree.outline = [d])
    (htokens : ∀ t ∈ tree.tokens, t.lexeme ∈ t.terminal.language) {f : SchemaFile}
    (h : tree.value = .ok f) : d.pieces false = some [⟨.file, f⟩] := by
  obtain ⟨ps, hps, hleaves⟩ := tree.exists_allPieces htokens false nofun f h
  obtain rfl : ps = [⟨.file, f⟩] := hleaves
  rw [houtline] at hps
  simpa [allPieces, Option.bind_eq_some_iff] using hps

namespace SchemaFile

variable {name : Text} {text : List Char} {tree : Tree (.nonterminal .schemaFile)}

theorem parse_of_value_error {fault : Fault} (htree : derive text = .ok tree)
    (h : tree.value = .error fault) : parse name text = .error fault := by
  simp only [parse, htree, bind, Except.bind, h]

theorem parse_of_fault? {f : SchemaFile} {fault : Fault} (htree : derive text = .ok tree)
    (h : tree.value = .ok f) (hfault : f.fault? = some fault) : parse name text = .error fault := by
  simp only [parse, htree, bind, Except.bind, h, hfault]

theorem parse_of_value_ok {f : SchemaFile} (htree : derive text = .ok tree)
    (h : tree.value = .ok f) (hfault : f.fault? = none) :
    parse name text = .ok { f with name } := by
  simp only [parse, htree, bind, Except.bind, h, hfault]

theorem parse_of_derive_error {fault : Fault} (h : derive text = .error fault) :
    parse name text = .error fault := by
  simp only [parse, h, bind, Except.bind]

end SchemaFile

/-- The problems of fields are no lexical ones. -/
theorem Fault.IsOfField.kind {tokens : List Token} {fault : Fault} (h : fault.IsOfField tokens)
    (name : Text) : (fault.report name).problem.kind = .grammar := by
  obtain ⟨t, -, -, h⟩ := h
  obtain ⟨problem, position⟩ := fault
  cases problem with
  | badMapKey | missingLabel | requiredField | groupField => rfl
  | _ => exact h.elim nofun nofun

/-! ## Spaced texts -/

/-- The lexemes of a derivation have one derivation only. -/
theorem Derives.eq_of_tokens {ls : List Lexed} (hls : ∀ l ∈ ls, l.Proper) {d d' : Derivation}
    (h : Derives (.phrase .file) [d]) (htokens : d.tokens = Lexed.placed .start ls)
    (h' : Derives (.phrase .file) [d']) (htokens' : d'.tokens = Lexed.placed .start ls) :
    d' = d := by
  obtain ⟨tree, houtline, htree⟩ := h.exists_tree
  obtain ⟨tree', houtline', htree'⟩ := h'.exists_tree
  rw [allTokens, allTokens, List.append_nil] at htree htree'
  have hderive := derive_spaced hls (htree.trans htokens)
  have hderive' := derive_spaced hls (htree'.trans htokens')
  obtain rfl := Except.ok.inj (hderive'.symm.trans hderive)
  exact List.singleton_inj.mp (houtline'.symm.trans houtline)

/-- Whether the fields of a file keep the rules of its dialect. -/
def SchemaFile.KeepsRules (f : SchemaFile) : Prop :=
  f.ForallFields fun x => x.problem? f.dialect = none

/-- The tokens of a file state no unknown dialect and no second package. -/
def Token.IsHeaded (tokens : List Token) : Prop :=
  (∃ d, IsStated tokens d) ∧ (packageNames tokens).length ≤ 1

/-- The parser is complete for the grammar. Whatever proper lexemes the grammar derives as a file,
the text of these lexemes with single spaces between them derives the tree of this derivation, which
is the only one. If no escape is bad, then the file that is built along the derivation is returned,
unless the dialect is unknown, there is a second package, or a field breaks a rule, and then a fault
of the grammar is reported. -/
theorem SchemaFile.parse_spaced {ls : List Lexed} (hls : ∀ l ∈ ls, l.Proper) {d : Derivation}
    (hd : Derives (.phrase .file) [d]) (htokens : d.tokens = Lexed.placed .start ls)
    (hescapes : ∀ l ∈ ls, l.1 = .string → ∃ bytes, unescape l.2 = .ok bytes) (name : Text) :
    (∃ tree, derive (Lexed.spaced ls) = .ok tree ∧ tree.outline = [d]) ∧
      (∀ d', Derives (.phrase .file) [d'] → d'.tokens = d.tokens → d' = d) ∧
        ((Token.IsHeaded d.tokens ∧ ∃ file, d.pieces false = some [⟨.file, file⟩] ∧
            file.KeepsRules ∧ parse name (Lexed.spaced ls) = .ok { file with name }) ∨
          ((Token.IsHeaded d.tokens → ∃ file, d.pieces false = some [⟨.file, file⟩] ∧
              ¬ file.KeepsRules) ∧
            ∃ fault, parse name (Lexed.spaced ls) = .error fault ∧
              (fault.report name).problem.kind = .grammar)) := by
  obtain ⟨tree, houtline, htree⟩ := hd.exists_tree
  rw [allTokens, allTokens, List.append_nil] at htree
  have hderive := derive_spaced hls (htree.trans htokens)
  have hlexemes : ∀ t ∈ tree.tokens, t.lexeme ∈ t.terminal.language := by
    intro t ht
    rw [htree, htokens] at ht
    exact (hls _ (Lexed.exists_mem_of_mem_placed ht)).mem_language
  refine ⟨⟨tree, hderive, houtline⟩, fun d' hd' htokens' => ?_, ?_⟩
  · exact hd.eq_of_tokens hls htokens hd' (htokens'.trans htokens)
  have hstated := tree.isStated_or_isFaulty hlexemes
  rw [htree] at hstated
  cases hvalue : tree.value with
  | ok file =>
    obtain ⟨hdialect, hpackages⟩ := hstated.1 file hvalue
    have hpieces := Tree.pieces_of_value houtline hlexemes hvalue
    cases hfault : file.fault? with
    | none =>
      exact .inl ⟨⟨⟨_, hdialect⟩, hpackages⟩, file, hpieces, fault?_eq_none_iff.mp hfault,
        parse_of_value_ok hderive hvalue hfault⟩
    | some fault =>
      refine .inr ⟨fun _ => ⟨file, hpieces, fun hkeeps => ?_⟩, fault,
        parse_of_fault? hderive hvalue hfault, ?_⟩
      · cases (fault?_eq_none_iff.mpr hkeeps).symm.trans hfault
      · exact (Tree.isOfField_of_fault? hvalue hfault).kind name
  | error fault =>
    have hparse : parse name (Lexed.spaced ls) = .error fault := parse_of_value_error hderive hvalue
    refine .inr ⟨fun hheaded => absurd hheaded ?_, fault, hparse, ?_⟩
    · rintro ⟨⟨dialect, hdialect⟩, hpackages⟩
      obtain ⟨t, ht, hterminal, e, he, -⟩ | ⟨_, _, spelled, hliterals, hspelled, hnone, -⟩ |
        ⟨_, _, _, hnames, -⟩ := hstated.2 fault hvalue
      · rw [htokens] at ht
        obtain ⟨bytes, hbytes⟩ := hescapes _ (Lexed.exists_mem_of_mem_placed ht) hterminal
        cases he.symm.trans hbytes
      · rw [Token.IsStated, hliterals] at hdialect
        obtain ⟨spelled', hspelled', hsome⟩ := hdialect
        obtain rfl := Except.ok.inj (hspelled.symm.trans hspelled')
        cases hnone.symm.trans hsome
      · rw [hnames] at hpackages
        simp at hpackages
    · obtain ⟨t, ht, hterminal, e, he, -⟩ | ⟨_, _, _, -, -, -, rfl⟩ | ⟨_, _, _, -, rfl⟩ :=
        hstated.2 fault hvalue
      · rw [htokens] at ht
        obtain ⟨bytes, hbytes⟩ := hescapes _ (Lexed.exists_mem_of_mem_placed ht) hterminal
        cases he.symm.trans hbytes
      · rfl
      · rfl

/-! ### A text with an import and a message -/

namespace Derives

variable {p : Pattern} {ps : List Pattern} {d : Derivation} {ds : List Derivation}

/-- A sequence starts with a single derivation. -/
theorem seq_cons (hp : Derives p [d]) (hps : Derives (.seq ps) ds) :
    Derives (.seq (p :: ps)) (d :: ds) := .chain hp hps

/-- An optional part of a sequence is left out. -/
theorem seq_skip (hps : Derives (.seq ps) ds) : Derives (.seq (p.opt :: ps)) ds :=
  .chain (.right .nothing) hps

theorem seq_last (hp : Derives p ds) : Derives (.seq [p]) ds := by
  have h : Derives (.seq [p]) (ds ++ []) := .chain hp .nothing
  rwa [List.append_nil] at h

end Derives

/-- The lexemes of an import and an empty message. -/
def importAndMessage : List Lexed :=
  [(.keyword .kwImport, ['i', 'm', 'p', 'o', 'r', 't']), (.string, ['"', 'a', '"']),
   (.mark .semicolon, [';']), (.keyword .kwMessage, ['m', 'e', 's', 's', 'a', 'g', 'e']),
   (.name, ['A']), (.mark .lbrace, ['\x7b']), (.mark .rbrace, ['\x7d'])]

/-- A token in a column of the first line. -/
def Derivation.tokenAt (l : Lexed) (column : Nat) : Derivation := .token ⟨l.1, l.2, ⟨1, column⟩⟩

open Derivation (tokenAt)

/-- The derivation of `import "a" ;` in front of a text. -/
def importDerivation : Derivation :=
  .phrase .topItem 0 [.phrase .dependency 0 [
    tokenAt (.keyword .kwImport, ['i', 'm', 'p', 'o', 'r', 't']) 1,
    .phrase .strings 0 [tokenAt (.string, ['"', 'a', '"']) 8],
    tokenAt (.mark .semicolon, [';']) 12]]

/-- The derivation of an empty message behind it. -/
def messageDerivation : Derivation :=
  .phrase .topItem 0 [.phrase .message 0 [
    tokenAt (.keyword .kwMessage, ['m', 'e', 's', 's', 'a', 'g', 'e']) 14,
    .phrase .name 0 [tokenAt (.name, ['A']) 22],
    tokenAt (.mark .lbrace, ['\x7b']) 24,
    tokenAt (.mark .rbrace, ['\x7d']) 26]]

theorem derives_tokenAt {t : Terminal} {l : List Char} {column : Nat} :
    Derives (.terminal t) [tokenAt (t, l) column] := .terminal ⟨t, l, ⟨1, column⟩⟩

theorem derives_importDerivation : Derives (.phrase .topItem) [importDerivation] :=
  .phrase rfl <| .left <| .phrase rfl <|
    .seq_cons derives_tokenAt <| .seq_skip <|
      .seq_cons (.phrase rfl (.once derives_tokenAt)) <| .seq_cons derives_tokenAt .nothing

theorem derives_messageDerivation : Derives (.phrase .topItem) [messageDerivation] :=
  .phrase rfl <| .right <| .right <| .right <| .left <| .phrase rfl <|
    .seq_cons derives_tokenAt <| .seq_cons (.phrase rfl derives_tokenAt) <|
      .seq_cons derives_tokenAt <| .seq_skip <| .seq_cons derives_tokenAt .nothing

theorem derives_importAndMessage :
    Derives (.phrase .file) [.phrase .file 0 [importDerivation, messageDerivation]] :=
  .phrase rfl <| .seq_skip <| .seq_last <| .left <|
    .again (.once derives_importDerivation) derives_messageDerivation

/-- The file that imports `a` and has an empty message. -/
def importAndMessageFile (name : Text) : SchemaFile where
  name
  dialect := .proto2
  package := none
  imports := [⟨"a", none, ⟨1, 8⟩⟩]
  messages := [⟨"A", [], [], [], [], [], [], [], [], [], ⟨1, 22⟩⟩]
  enums := []
  services := []
  extendBlocks := []
  options := []

theorem pieces_importAndMessage :
    (Derivation.phrase .file 0 [importDerivation, messageDerivation]).pieces false =
      some [⟨.file, importAndMessageFile ""⟩] := by
  with_unfolding_all rfl

/-- Lexemes that the lexer recognises as a whole are proper. -/
theorem Lexed.proper_of_lexed? {l : Lexed} (h : Lexer.lexed? (· = l.1) l.2 = some l)
    (hname : l.1 = .name → Keyword.ofSpelling? l.2 = none) : l.Proper :=
  ⟨Lexer.mem_language_of_lexed? h, hname⟩

/-- The text of the lexemes of a tree is parsed as what is built along the tree. -/
theorem SchemaFile.parse_spaced_tree {ls : List Lexed} {tree : Tree (.nonterminal .schemaFile)}
    {f : SchemaFile} (hlexed : ∀ l ∈ ls, Lexer.lexed? (· = l.1) l.2 = some l ∧
      (l.1 = .name → Keyword.ofSpelling? l.2 = none))
    (htokens : tree.tokens = Lexed.placed .start ls) (hvalue : tree.value = .ok f)
    (hfault : f.fault? = none) (name : Text) :
    parse name (Lexed.spaced ls) = .ok { f with name } :=
  parse_of_value_ok
    (derive_spaced (fun l hl => Lexed.proper_of_lexed? (hlexed l hl).1 (hlexed l hl).2) htokens)
    hvalue hfault

/-- The text of an import and an empty message is parsed. -/
theorem SchemaFile.parse_spaced_importAndMessage :
    (∀ l ∈ importAndMessage, l.Proper) ∧
      Derives (.phrase .file) [.phrase .file 0 [importDerivation, messageDerivation]] ∧
        parse (Text.ofString "a.proto") (Lexed.spaced importAndMessage) =
          .ok (importAndMessageFile (Text.ofString "a.proto")) := by
  have hlexed : ∀ l ∈ importAndMessage, Lexer.lexed? (· = l.1) l.2 = some l ∧
      (l.1 = .name → Keyword.ofSpelling? l.2 = none) := by
    decide
  have hproper : ∀ l ∈ importAndMessage, l.Proper :=
    fun l hl => Lexed.proper_of_lexed? (hlexed l hl).1 (hlexed l hl).2
  have hbytes : unescape ['"', 'a', '"'] = .ok [97] := by with_unfolding_all rfl
  have hescapes : ∀ l ∈ importAndMessage, l.1 = .string → ∃ bytes, unescape l.2 = .ok bytes := by
    simp [importAndMessage, hbytes]
  have hheaded : Token.IsHeaded (Derivation.phrase .file 0 [importDerivation,
      messageDerivation]).tokens := ⟨⟨.proto2, Token.isStated_of_avoids (by decide)⟩, by decide⟩
  have hkeeps : (importAndMessageFile "").KeepsRules := by
    simp [importAndMessageFile, KeepsRules, ForallFields, MessageDecl.ForallIn, MessageDecl.Forall,
      MessageDecl.ForallFields]
  obtain ⟨-, -, ⟨-, file, hfile, -, hparse⟩ | ⟨h, -⟩⟩ := parse_spaced hproper
    derives_importAndMessage (by decide) hescapes (Text.ofString "a.proto")
  · rw [pieces_importAndMessage] at hfile
    obtain rfl : importAndMessageFile "" = file := by simpa using hfile
    exact ⟨hproper, derives_importAndMessage, hparse⟩
  · obtain ⟨file, hfile, hbreaks⟩ := h hheaded
    rw [pieces_importAndMessage] at hfile
    obtain rfl : importAndMessageFile "" = file := by simpa using hfile
    exact absurd hkeeps hbreaks

/-! ## Trees of one line -/

namespace Sample

/-- A token of the first line. -/
def leafAt (k : Terminal) (lexeme : List Char) (column : Nat) : Tree (.terminal k) :=
  .leaf ⟨k, lexeme, ⟨1, column⟩⟩

/-- A name in the first line. -/
def wordAt (lexeme : List Char) (column : Nat) : Tree (.part .name) :=
  .node ⟨.name, 0⟩ (.cons (leafAt .name lexeme column) .nil)

/-- A type in the first line. -/
def typeAt (lexeme : List Char) (column : Nat) : Tree (.part .fullIdent) :=
  .node ⟨.fullIdent, 3⟩ (.cons (wordAt lexeme column) .nil)

/-- The number of a field in the first line. -/
def numberAt (lexeme : List Char) (column : Nat) : Tree (.part .fieldNumber) :=
  .node ⟨.fieldNumber, 0⟩ (.cons (leafAt .int lexeme column) .nil)

/-- The label of an optional field in the first line. -/
def optionalAt (column : Nat) : Tree (.part .fieldLabel) :=
  .node ⟨.fieldLabel, 0⟩ (.cons
    (leafAt (.keyword .kwOptional) ['o', 'p', 't', 'i', 'o', 'n', 'a', 'l'] column) .nil)

/-- The message `M` at the beginning of a text, with the column of its last token. -/
def messageAt (items : Tree (.part .messageItems)) (column : Nat) : Tree (.part .topItem) :=
  .node ⟨.topItem, 3⟩ (.cons (.node ⟨.messageDecl, 0⟩
    (.cons (leafAt (.keyword .kwMessage) ['m', 'e', 's', 's', 'a', 'g', 'e'] 1)
      (.cons (wordAt ['M'] 9) (.cons (leafAt (.mark .lbrace) ['\x7b'] 11) (.cons items
        (.cons (leafAt (.mark .rbrace) ['\x7d'] column) .nil)))))) .nil)

end Sample

end ProtoSchema
