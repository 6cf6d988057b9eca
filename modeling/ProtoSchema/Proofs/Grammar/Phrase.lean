import ProtoSchema.Grammar.Tree
import ProtoSchema.Proofs.Grammar.Piece

/-!
# Phrases of the schema language

The grammar of the schema language as it is written down for its readers: each phrase by a pattern
with choices, optional parts and repetitions, and with the builder that makes a piece of the pieces
inside it. Keywords and marks leave no piece behind, except in a phrase that keeps them. A phrase
without a builder of its own hands the pieces inside it on to the phrase around it.

`Reads` says which tokens a pattern derives and which pieces the builders make of them. Each
nonterminal of the compiled grammar stands for a phrase or for a repetition inside one, and the symbols
of every rule are one expansion of a wording of that phrase (`RuleName.exists_wording`).
-/

namespace ProtoSchema

/-- The phrases of the language. -/
inductive Phrase
  | file | topItem
  | dialect | dependency | modifier | package
  | option | fieldOptions | fieldOption | optionName | optionNamePart | extensionName
  | message | messageItem
  | field | label | fieldNumber | group | mapField
  | oneof | oneofItem | oneofField | extend | extendItem
  | extensions | reserved | ranges | range | reservedNames
  | enum | enumItem | enumValue | enumValueName
  | service | serviceItem | rpc | rpcType | stream | rpcBody
  | constant | number | sign | signedInt | strings
  | aggregate | aggregateField | aggregateKey | aggregateValue | aggregateList
  | fullIdent | leadingDot | name
  deriving DecidableEq, Repr

/-! ## Patterns -/

/-- What a phrase may look like. -/
inductive Pattern
  | nothing
  | terminal (t : Terminal)
  | phrase (p : Phrase)
  | chain (first second : Pattern)
  | either (left right : Pattern)
  | many (p : Pattern)
  deriving DecidableEq, Repr

namespace Pattern

/-- A keyword. -/
abbrev key (k : Keyword) : Pattern := .terminal (.keyword k)

/-- A mark. -/
abbrev mark (m : Mark) : Pattern := .terminal (.mark m)

/-- A pattern or nothing. -/
def opt (p : Pattern) : Pattern := .either p .nothing

/-- A pattern any number of times. -/
def star (p : Pattern) : Pattern := .opt (.many p)

/-- Patterns one after the other. -/
def seq : List Pattern → Pattern
  | [] => .nothing
  | p :: ps => .chain p (seq ps)

/-- One of some patterns. -/
def oneOf : (p : Pattern) → List Pattern → Pattern
  | p, [] => p
  | p, q :: qs => .either p (oneOf q qs)

/-- A pattern once, then any number of times behind a mark. -/
def separated (m : Mark) (p : Pattern) : Pattern := .seq [p, .star (.seq [.mark m, p])]

end Pattern

/-! ## The grammar -/

/-- One way to write a phrase: its pattern, and what becomes of the pieces in it. -/
structure Wording where
  pattern : Pattern
  build : List Piece → Option (List Piece)

namespace Wording

/-- The pieces become one. -/
def built (pattern : Pattern) (build : List Piece → Option Piece) : Wording where
  pattern
  build ps := (build ps).map fun p => [p]

/-- The pieces are handed on. -/
def inlined (pattern : Pattern) : Wording := ⟨pattern, some⟩

@[simp]
theorem build_built_eq_some {pattern : Pattern} {build : List Piece → Option Piece}
    {ps : List Piece} {q : Piece} :
    (built pattern build).build ps = some [q] ↔ build ps = some q := by
  simp [built]

/-- A builder that gives a piece makes a wording leave it. -/
theorem exists_build_built {pattern : Pattern} {build : List Piece → Option Piece}
    {ps : List Piece} {q : Piece} (h : build ps = some q) :
    ∃ qs, (built pattern build).build ps = some qs ∧ qs = [q] :=
  ⟨[q], build_built_eq_some.mpr h, rfl⟩

@[simp]
theorem build_inlined (pattern : Pattern) (ps : List Piece) :
    (inlined pattern).build ps = some ps :=
  rfl

end Wording

namespace Phrase

/-- Whether the keywords and marks in a phrase are kept as pieces. -/
@[simp]
def keepsAll : Phrase → Bool
  | modifier | label | enumValueName | sign | signedInt => true
  | _ => false

open Pattern Wording in
/-- The ways to write a phrase. -/
def wordings : Phrase → List Wording
  | file => [built (seq [opt (phrase dialect), star (phrase topItem)]) Piece.file]
  | dialect =>
    [built (seq [key .kwSyntax, mark .equal, phrase strings, mark .semicolon]) Piece.dialect]
  | topItem =>
    [inlined (oneOf (phrase dependency) [phrase package, phrase option, phrase message,
      phrase enum, phrase service, phrase extend, mark .semicolon])]
  | dependency =>
    [built (seq [key .kwImport, opt (phrase modifier), phrase strings, mark .semicolon])
      Piece.dependency]
  | modifier => [built (oneOf (key .kwPublic) [key .kwWeak]) Piece.modifier]
  | package => [built (seq [key .kwPackage, phrase fullIdent, mark .semicolon]) Piece.package]
  /- Options -/
  | option =>
    [built (seq [key .kwOption, phrase optionName, mark .equal, phrase constant, mark .semicolon])
      Piece.option]
  | fieldOptions =>
    [built (seq [mark .lbracket, separated .comma (phrase fieldOption), mark .rbracket])
      Piece.fieldOptions]
  | fieldOption =>
    [built (seq [phrase optionName, mark .equal, phrase constant]) Piece.option]
  | optionName => [built (separated .dot (phrase optionNamePart)) Piece.optionName]
  | optionNamePart => [inlined (oneOf (phrase name) [phrase extensionName])]
  | extensionName =>
    [built (seq [mark .lparen, phrase fullIdent, mark .rparen]) Piece.extensionName]
  /- Messages -/
  | message =>
    [built (seq [key .kwMessage, phrase name, mark .lbrace, star (phrase messageItem),
      mark .rbrace]) Piece.message]
  | messageItem =>
    [inlined (oneOf (phrase field) [phrase group, phrase mapField, phrase oneof, phrase message,
      phrase enum, phrase extend, phrase extensions, phrase reserved, phrase option,
      mark .semicolon])]
  | field =>
    [built (seq [opt (phrase label), phrase fullIdent, phrase name, mark .equal,
      phrase fieldNumber, opt (phrase fieldOptions), mark .semicolon]) Piece.field]
  | label => [built (oneOf (key .kwOptional) [key .kwRequired, key .kwRepeated]) Piece.label]
  | fieldNumber => [built (terminal .int) Piece.fieldNumber]
  | group =>
    [built (seq [phrase label, key .kwGroup, phrase name, mark .equal, phrase fieldNumber,
      opt (phrase fieldOptions), mark .lbrace, star (phrase messageItem), mark .rbrace])
      Piece.group]
  | mapField =>
    [built (seq [key .kwMap, mark .less, phrase fullIdent, mark .comma, phrase fullIdent,
      mark .greater, phrase name, mark .equal, phrase fieldNumber, opt (phrase fieldOptions),
      mark .semicolon]) Piece.mapField]
  | oneof =>
    [built (seq [key .kwOneof, phrase name, mark .lbrace, star (phrase oneofItem), mark .rbrace])
      Piece.oneof]
  | oneofItem => [inlined (oneOf (phrase oneofField) [phrase option, mark .semicolon])]
  | oneofField =>
    [built (seq [phrase fullIdent, phrase name, mark .equal, phrase fieldNumber,
      opt (phrase fieldOptions), mark .semicolon]) Piece.field]
  | extend =>
    [built (seq [key .kwExtend, phrase fullIdent, mark .lbrace, star (phrase extendItem),
      mark .rbrace]) Piece.extend]
  | extendItem => [inlined (oneOf (phrase field) [mark .semicolon])]
  | extensions =>
    [built (seq [key .kwExtensions, phrase ranges, opt (phrase fieldOptions), mark .semicolon])
      Piece.extensions]
  | reserved =>
    [built (seq [key .kwReserved, oneOf (phrase ranges) [phrase reservedNames], mark .semicolon])
      Piece.reserved]
  | ranges => [built (separated .comma (phrase range)) Piece.ranges]
  | range =>
    [built (oneOf (phrase signedInt) [seq [phrase signedInt, key .kwTo, phrase signedInt]])
      Piece.range,
     built (seq [phrase signedInt, key .kwTo, key .kwMax]) Piece.openRange]
  | reservedNames => [built (separated .comma (phrase strings)) Piece.reservedNames]
  /- Enums -/
  | enum =>
    [built (seq [key .kwEnum, phrase name, mark .lbrace, star (phrase enumItem), mark .rbrace])
      Piece.enum]
  | enumItem =>
    [inlined (oneOf (phrase enumValue) [phrase option, phrase reserved, mark .semicolon])]
  | enumValue =>
    [built (seq [phrase enumValueName, mark .equal, phrase signedInt, opt (phrase fieldOptions),
      mark .semicolon]) Piece.enumValue]
  | enumValueName =>
    [built (oneOf (terminal .name) [key .kwOption, key .kwReserved]) Piece.name]
  /- Services -/
  | service =>
    [built (seq [key .kwService, phrase name, mark .lbrace, star (phrase serviceItem),
      mark .rbrace]) Piece.service]
  | serviceItem => [inlined (oneOf (phrase rpc) [phrase option, mark .semicolon])]
  | rpc =>
    [built (seq [key .kwRpc, phrase name, mark .lparen, phrase rpcType, mark .rparen,
      key .kwReturns, mark .lparen, phrase rpcType, mark .rparen, phrase rpcBody]) Piece.method]
  | rpcType => [built (seq [opt (phrase stream), phrase fullIdent]) Piece.rpcType]
  | stream => [built (key .kwStream) Piece.stream]
  | rpcBody =>
    [inlined (oneOf (mark .semicolon)
      [seq [mark .lbrace, star (oneOf (phrase option) [mark .semicolon]), mark .rbrace]])]
  /- Constants -/
  | constant =>
    [built (oneOf (phrase number) [phrase fullIdent, phrase strings, phrase aggregate])
      Piece.constant]
  | number =>
    [built (oneOf (seq [opt (phrase sign), terminal .int])
      [seq [opt (phrase sign), terminal .float], seq [phrase sign, terminal .name]]) Piece.number]
  | sign => [built (oneOf (mark .minus) [mark .plus]) Piece.sign]
  | signedInt => [built (seq [opt (mark .minus), terminal .int]) Piece.signedInt]
  | strings => [built (many (terminal .string)) Piece.strings]
  | aggregate =>
    [built (seq [mark .lbrace, star (phrase aggregateField), mark .rbrace]) Piece.aggregate]
  | aggregateField =>
    [built (seq [phrase aggregateKey, opt (mark .colon), phrase aggregateValue,
      opt (oneOf (mark .comma) [mark .semicolon])]) Piece.aggregateField]
  | aggregateKey =>
    [built (oneOf (phrase name) [seq [mark .lbracket, phrase fullIdent, mark .rbracket]])
      Piece.aggregateKey]
  | aggregateValue => [inlined (oneOf (phrase constant) [phrase aggregateList])]
  | aggregateList =>
    [built (seq [mark .lbracket, opt (separated .comma (phrase aggregateValue)), mark .rbracket])
      Piece.aggregateList]
  /- Identifiers -/
  | fullIdent =>
    [built (seq [opt (phrase leadingDot), separated .dot (phrase name)]) Piece.fullIdent]
  | leadingDot => [built (mark .dot) Piece.leadingDot]
  | name => [built (terminal .name) Piece.name]

end Phrase

/-! ## Readings -/

/-- Whether the tokens of a terminal are kept as pieces everywhere: those with a text of their
own. -/
@[simp]
def Terminal.isClass : Terminal → Bool
  | .keyword _ | .mark _ => false
  | _ => true

/-- The pieces that a token leaves behind. -/
def Token.pieces (keepsAll : Bool) (t : Token) : List Piece :=
  if keepsAll ∨ t.terminal.isClass then [⟨.token, t⟩] else []

/-- A pattern derives these tokens, and these pieces are made of them. -/
inductive Reads : Bool → Pattern → List Token → List Piece → Prop
  | nothing {keep : Bool} : Reads keep .nothing [] []
  | terminal {keep : Bool} (t : Token) : Reads keep (.terminal t.terminal) [t] (t.pieces keep)
  | phrase {keep : Bool} {p : Phrase} {w : Wording} {ts : List Token} {ps qs : List Piece}
      (hwording : w ∈ p.wordings) (hpattern : Reads p.keepsAll w.pattern ts ps)
      (hbuild : w.build ps = some qs) : Reads keep (.phrase p) ts qs
  | chain {keep : Bool} {p q : Pattern} {ts us : List Token} {ps qs : List Piece}
      (hfirst : Reads keep p ts ps) (hsecond : Reads keep q us qs) :
      Reads keep (.chain p q) (ts ++ us) (ps ++ qs)
  | left {keep : Bool} {p q : Pattern} {ts : List Token} {ps : List Piece}
      (h : Reads keep p ts ps) : Reads keep (.either p q) ts ps
  | right {keep : Bool} {p q : Pattern} {ts : List Token} {ps : List Piece}
      (h : Reads keep q ts ps) : Reads keep (.either p q) ts ps
  | once {keep : Bool} {p : Pattern} {ts : List Token} {ps : List Piece}
      (h : Reads keep p ts ps) : Reads keep (.many p) ts ps
  | again {keep : Bool} {p : Pattern} {ts us : List Token} {ps qs : List Piece}
      (hmany : Reads keep (.many p) ts ps) (hlast : Reads keep p us qs) :
      Reads keep (.many p) (ts ++ us) (ps ++ qs)

/-! ## Expansions -/

open Pattern in
/-- What a nonterminal stands for. -/
@[simp]
def Nonterminal.pattern : Nonterminal → Pattern
  | schemaFile => phrase .file
  | topItems => many (phrase .topItem)
  | topItem => phrase .topItem
  | dialectStmt => phrase .dialect
  | importStmt => phrase .dependency
  | importModifier => phrase .modifier
  | packageStmt => phrase .package
  | optionStmt => phrase .option
  | fieldOptions => phrase .fieldOptions
  | moreFieldOptions => many (seq [mark .comma, phrase .fieldOption])
  | fieldOption => phrase .fieldOption
  | optionName => phrase .optionName
  | moreOptionNameParts => many (seq [mark .dot, phrase .optionNamePart])
  | optionNamePart => phrase .optionNamePart
  | extensionName => phrase .extensionName
  | messageDecl => phrase .message
  | messageItems => many (phrase .messageItem)
  | messageItem => phrase .messageItem
  | fieldDecl => phrase .field
  | fieldLabel => phrase .label
  | fieldNumber => phrase .fieldNumber
  | groupDecl => phrase .group
  | mapFieldDecl => phrase .mapField
  | oneofDecl => phrase .oneof
  | oneofItems => many (phrase .oneofItem)
  | oneofItem => phrase .oneofItem
  | oneofField => phrase .oneofField
  | extendDecl => phrase .extend
  | extendItems => many (phrase .extendItem)
  | extendItem => phrase .extendItem
  | extensionsStmt => phrase .extensions
  | reservedStmt => phrase .reserved
  | numberRanges => phrase .ranges
  | moreNumberRanges => many (seq [mark .comma, phrase .range])
  | numberRange => phrase .range
  | reservedNames => phrase .reservedNames
  | moreReservedNames => many (seq [mark .comma, phrase .strings])
  | enumDecl => phrase .enum
  | enumItems => many (phrase .enumItem)
  | enumItem => phrase .enumItem
  | enumValue => phrase .enumValue
  | enumValueName => phrase .enumValueName
  | serviceDecl => phrase .service
  | serviceItems => many (phrase .serviceItem)
  | serviceItem => phrase .serviceItem
  | rpcDecl => phrase .rpc
  | rpcType => phrase .rpcType
  | streamMark => phrase .stream
  | rpcBody => phrase .rpcBody
  | rpcItems => many (oneOf (phrase .option) [mark .semicolon])
  | constant => phrase .constant
  | number => phrase .number
  | sign => phrase .sign
  | signedInt => phrase .signedInt
  | strings => phrase .strings
  | stringRun => many (terminal .string)
  | aggregate => phrase .aggregate
  | aggregateFields => many (phrase .aggregateField)
  | aggregateField => phrase .aggregateField
  | aggregateKey => phrase .aggregateKey
  | aggregateValue => phrase .aggregateValue
  | aggregateList => phrase .aggregateList
  | moreAggregateValues => many (seq [mark .comma, phrase .aggregateValue])
  | fullIdent => phrase .fullIdent
  | leadingDot => phrase .leadingDot
  | moreNames => many (seq [mark .dot, phrase .name])
  | name => phrase .name

namespace Symbol

/-- What a symbol stands for. -/
def pattern : Symbol → Pattern
  | terminal t => .terminal t
  | nonterminal n => n.pattern

def isTerminal : Symbol → Bool
  | terminal _ => true
  | nonterminal _ => false

/-- What symbols stand for, one after the other. -/
def patterns (ss : List Symbol) : Pattern := .seq (ss.map pattern)

end Symbol

namespace Pattern

/-- The wordings of a phrase or of a repetition. -/
def wordings : Pattern → List Wording
  | .phrase p => p.wordings
  | .many p => [.inlined p, .inlined (.chain (.many p) p)]
  | _ => []

/-- Whether keywords and marks are kept as pieces. -/
@[simp]
def keepsAll : Pattern → Bool
  | .phrase p => p.keepsAll
  | _ => false

/-- What may be left of some symbols behind those that a pattern expands to. -/
def rests : Pattern → List Symbol → List (List Symbol)
  | .nothing, ss => [ss]
  | .chain p q, ss => (p.rests ss).flatMap q.rests
  | .either p q, ss => p.rests ss ++ q.rests ss
  | p, s :: ss => if s.pattern = p then [ss] else []
  | _, [] => []

end Pattern

/-- The symbols of every rule are an expansion of a wording. -/
theorem RuleName.exists_wording (r : RuleName) :
    ∃ w ∈ r.head.pattern.wordings, [] ∈ w.pattern.rests r.symbols := by
  obtain ⟨head, index⟩ := r
  revert index
  cases head <;> decide

/-- Where keywords and marks are kept there is nothing but tokens. -/
theorem RuleName.isTerminal_of_keepsAll (r : RuleName) :
    r.head.pattern.keepsAll = true → ∀ s ∈ r.symbols, s.isTerminal = true := by
  obtain ⟨head, index⟩ := r
  revert index
  cases head <;> decide

end ProtoSchema
