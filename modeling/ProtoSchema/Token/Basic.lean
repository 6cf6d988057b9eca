import ProtoSchema.Position

/-!
# Terminals and tokens

A token is a terminal with the lexeme it was read from and the place where that lexeme starts.
-/

namespace ProtoSchema

/-!
## Terminals

The alphabet of the schema grammar: four classes of lexemes, the keywords, and the punctuation
marks. Which spelling is a keyword depends on where it stands, so a keyword is an ordinary name
wherever the grammar asks for a name only.
-/

/-- The words with a meaning of their own in some place of a schema. -/
inductive Keyword
  | kwSyntax | kwImport | kwPublic | kwWeak | kwPackage | kwOption
  | kwMessage | kwEnum | kwService | kwExtend
  | kwOptional | kwRequired | kwRepeated | kwGroup | kwMap | kwOneof
  | kwExtensions | kwReserved | kwTo | kwMax
  | kwRpc | kwReturns | kwStream
  deriving DecidableEq, Repr

namespace Keyword

/-- How a keyword is written. -/
def spelling : Keyword → String
  | kwSyntax => "syntax"
  | kwImport => "import"
  | kwPublic => "public"
  | kwWeak => "weak"
  | kwPackage => "package"
  | kwOption => "option"
  | kwMessage => "message"
  | kwEnum => "enum"
  | kwService => "service"
  | kwExtend => "extend"
  | kwOptional => "optional"
  | kwRequired => "required"
  | kwRepeated => "repeated"
  | kwGroup => "group"
  | kwMap => "map"
  | kwOneof => "oneof"
  | kwExtensions => "extensions"
  | kwReserved => "reserved"
  | kwTo => "to"
  | kwMax => "max"
  | kwRpc => "rpc"
  | kwReturns => "returns"
  | kwStream => "stream"

/-- Every keyword, longest spelling first: of the keywords that open a text, the first in this
order is the longest. -/
def all : List Keyword :=
  [kwExtensions,
   kwOptional, kwRequired, kwRepeated, kwReserved,
   kwPackage, kwMessage, kwService, kwReturns,
   kwSyntax, kwImport, kwPublic, kwOption, kwExtend, kwStream,
   kwGroup, kwOneof,
   kwWeak, kwEnum,
   kwMap, kwMax, kwRpc,
   kwTo]

/-- Every keyword is listed. -/
theorem mem_all (k : Keyword) : k ∈ all := by cases k <;> decide

/-- The keyword with a spelling. -/
def ofSpelling? (s : List Char) : Option Keyword := all.find? fun k => k.spelling.toList == s

end Keyword

/-- The punctuation marks. -/
inductive Mark
  | equal | semicolon | comma | colon | dot | minus | plus
  | lparen | rparen | lbracket | rbracket | lbrace | rbrace | less | greater
  deriving DecidableEq, Repr

namespace Mark

/-- How a mark is written. -/
def character : Mark → Char
  | equal => '='
  | semicolon => ';'
  | comma => ','
  | colon => ':'
  | dot => '.'
  | minus => '-'
  | plus => '+'
  | lparen => '('
  | rparen => ')'
  | lbracket => '['
  | rbracket => ']'
  | lbrace => '\x7b'
  | rbrace => '\x7d'
  | less => '<'
  | greater => '>'

/-- Every mark. -/
def all : List Mark :=
  [equal, semicolon, comma, colon, dot, minus, plus,
   lparen, rparen, lbracket, rbracket, lbrace, rbrace, less, greater]

/-- Every mark is listed. -/
theorem mem_all (m : Mark) : m ∈ all := by cases m <;> decide

end Mark

/-- The terminals of the grammar. -/
inductive Terminal
  | name
  | int
  | float
  | string
  | keyword (k : Keyword)
  | mark (m : Mark)
  deriving DecidableEq, Repr

namespace Terminal

/-- Every terminal. -/
def all : List Terminal :=
  [name, int, float, string] ++ Keyword.all.map keyword ++ Mark.all.map mark

/-- Every terminal is listed. -/
theorem mem_all (t : Terminal) : t ∈ all := by
  cases t with
  | keyword k => simp [all, Keyword.mem_all]
  | mark m => simp [all, Mark.mem_all]
  | _ => simp [all]

/-- How a diagnostic names a terminal it would have accepted. -/
def description : Terminal → String
  | name => "identifier"
  | int => "integer"
  | float => "number"
  | string => "string"
  | keyword k => "'" ++ k.spelling ++ "'"
  | mark m => "'" ++ m.character.toString ++ "'"

end Terminal

/-- A lexeme of a schema text, classified. -/
structure Token where
  terminal : Terminal
  lexeme : List Char
  position : Position
  deriving DecidableEq, Repr

/-- The kinds of entries in a listing of tokens. -/
inductive TokenKind
  | keyword
  | identifier
  | integer
  | float
  | string
  | symbol
  | eof
  deriving DecidableEq, Repr

/-- How a kind is shown. -/
def TokenKind.name : TokenKind → String
  | keyword => "keyword"
  | identifier => "identifier"
  | integer => "integer"
  | float => "float"
  | string => "string"
  | symbol => "symbol"
  | eof => "eof"

/-- The kind of the tokens of a terminal. -/
def Terminal.kind : Terminal → TokenKind
  | .name => .identifier
  | .int => .integer
  | .float => .float
  | .string => .string
  | .keyword _ => .keyword
  | .mark _ => .symbol

/-- The lexeme of a token as a string. -/
def Token.text (t : Token) : String := String.ofList t.lexeme

/-- One line of a token listing. -/
structure TokenEntry where
  kind : TokenKind
  text : String
  position : Position
  deriving DecidableEq, Repr

/-- The line of a listing that shows a token. -/
def Token.entry (t : Token) : TokenEntry := ⟨t.terminal.kind, t.text, t.position⟩

end ProtoSchema
