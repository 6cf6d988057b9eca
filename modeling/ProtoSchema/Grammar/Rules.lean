import ProtoSchema.Grammar.Assembly

/-!
# The schema grammar

`rules n` lists the ways to write a nonterminal: the symbols in their order, and what the whole
stands for in terms of its parts. Optional parts are written out as separate rules and repetition
as left recursion, so that no rule but that of the empty file is empty.
-/

namespace ProtoSchema

/-- A function of the values of symbols that may refuse them with a fault. -/
abbrev Action (β : Type) : List Symbol → Type
  | [] => Except Fault β
  | s :: ss => s.Value → Action β ss

/-- One way to write a nonterminal. -/
structure Rule (n : Nonterminal) where
  symbols : List Symbol
  action : Action n.Value symbols

/-- The rules of a nonterminal. -/
def rules : (n : Nonterminal) → List (Rule n)
  /- Files -/
  | .schemaFile => [
      ⟨[.part .dialectStmt, .part .topItems], fun d items => SchemaFile.ofItems d items⟩,
      ⟨[.part .dialectStmt], fun d => SchemaFile.ofItems d []⟩,
      ⟨[.part .topItems], fun items => SchemaFile.ofItems .proto2 items⟩,
      ⟨[], SchemaFile.ofItems .proto2 []⟩]
  | .topItems => [
      ⟨[.part .topItem], fun i => .ok [i]⟩,
      ⟨[.part .topItems, .part .topItem], fun is i => .ok (is ++ [i])⟩]
  | .topItem => [
      ⟨[.part .importStmt], fun i => .ok (.dependency i)⟩,
      ⟨[.part .packageStmt], fun p => .ok (.package p)⟩,
      ⟨[.part .optionStmt], fun o => .ok (.option o)⟩,
      ⟨[.part .messageDecl], fun m => .ok (.message m)⟩,
      ⟨[.part .enumDecl], fun e => .ok (.enum e)⟩,
      ⟨[.part .serviceDecl], fun s => .ok (.service s)⟩,
      ⟨[.part .extendDecl], fun e => .ok (.extend e)⟩,
      ⟨[.mark .semicolon], fun _ => .ok .empty⟩]
  | .dialectStmt => [
      ⟨[.key .kwSyntax, .mark .equal, .part .strings, .mark .semicolon],
        fun _ _ s _ => Dialect.ofBytes s⟩]
  | .importStmt => [
      ⟨[.key .kwImport, .part .importModifier, .part .strings, .mark .semicolon],
        fun _ m s _ => .ok ⟨.ofBytes s.bytes, some m, s.position⟩⟩,
      ⟨[.key .kwImport, .part .strings, .mark .semicolon],
        fun _ s _ => .ok ⟨.ofBytes s.bytes, none, s.position⟩⟩]
  | .importModifier => [
      ⟨[.key .kwPublic], fun _ => .ok .asPublic⟩,
      ⟨[.key .kwWeak], fun _ => .ok .asWeak⟩]
  | .packageStmt => [
      ⟨[.key .kwPackage, .part .fullIdent, .mark .semicolon], fun _ p _ => .ok p⟩]
  /- Options -/
  | .optionStmt => [
      ⟨[.key .kwOption, .part .optionName, .mark .equal, .part .constant, .mark .semicolon],
        fun _ n _ c _ => .ok (.ofIdent n c)⟩]
  | .fieldOptions => [
      ⟨[.mark .lbracket, .part .fieldOption, .part .moreFieldOptions, .mark .rbracket],
        fun _ o os _ => .ok (o :: os)⟩,
      ⟨[.mark .lbracket, .part .fieldOption, .mark .rbracket], fun _ o _ => .ok [o]⟩]
  | .moreFieldOptions => [
      ⟨[.mark .comma, .part .fieldOption], fun _ o => .ok [o]⟩,
      ⟨[.part .moreFieldOptions, .mark .comma, .part .fieldOption],
        fun os _ o => .ok (os ++ [o])⟩]
  | .fieldOption => [
      ⟨[.part .optionName, .mark .equal, .part .constant], fun n _ c => .ok (.ofIdent n c)⟩]
  | .optionName => [
      ⟨[.part .optionNamePart, .part .moreOptionNameParts], fun p ps => .ok (.join p ps)⟩,
      ⟨[.part .optionNamePart], fun p => .ok p⟩]
  | .moreOptionNameParts => [
      ⟨[.mark .dot, .part .optionNamePart], fun _ p => .ok [p]⟩,
      ⟨[.part .moreOptionNameParts, .mark .dot, .part .optionNamePart],
        fun ps _ p => .ok (ps ++ [p])⟩]
  | .optionNamePart => [
      ⟨[.part .name], fun n => .ok n⟩,
      ⟨[.part .extensionName], fun n => .ok n⟩]
  | .extensionName => [
      ⟨[.mark .lparen, .part .fullIdent, .mark .rparen], fun _ i _ => .ok i.parenthesised⟩]
  /- Messages -/
  | .messageDecl => [
      ⟨[.key .kwMessage, .part .name, .mark .lbrace, .part .messageItems, .mark .rbrace],
        fun _ n _ items _ => .ok (.ofItems n items)⟩,
      ⟨[.key .kwMessage, .part .name, .mark .lbrace, .mark .rbrace],
        fun _ n _ _ => .ok (.ofItems n [])⟩]
  | .messageItems => [
      ⟨[.part .messageItem], fun i => .ok [i]⟩,
      ⟨[.part .messageItems, .part .messageItem], fun is i => .ok (is ++ [i])⟩]
  | .messageItem => [
      ⟨[.part .fieldDecl], fun f => .ok (.field f)⟩,
      ⟨[.part .groupDecl], fun g => .ok (.group g)⟩,
      ⟨[.part .mapFieldDecl], fun f => .ok (.field f)⟩,
      ⟨[.part .oneofDecl], fun o => .ok (.oneof o)⟩,
      ⟨[.part .messageDecl], fun m => .ok (.message m)⟩,
      ⟨[.part .enumDecl], fun e => .ok (.enum e)⟩,
      ⟨[.part .extendDecl], fun e => .ok (.extend e)⟩,
      ⟨[.part .extensionsStmt], fun rs => .ok (.extensions rs)⟩,
      ⟨[.part .reservedStmt], fun r => .ok (.reserved r)⟩,
      ⟨[.part .optionStmt], fun o => .ok (.option o)⟩,
      ⟨[.mark .semicolon], fun _ => .ok .empty⟩]
  | .fieldDecl => [
      ⟨[.part .fieldLabel, .part .fullIdent, .part .name, .mark .equal, .part .fieldNumber,
        .part .fieldOptions, .mark .semicolon],
        fun l t n _ k os _ => .ok (.plain (some l) t n k os)⟩,
      ⟨[.part .fieldLabel, .part .fullIdent, .part .name, .mark .equal, .part .fieldNumber,
        .mark .semicolon],
        fun l t n _ k _ => .ok (.plain (some l) t n k [])⟩,
      ⟨[.part .fullIdent, .part .name, .mark .equal, .part .fieldNumber,
        .part .fieldOptions, .mark .semicolon],
        fun t n _ k os _ => .ok (.plain none t n k os)⟩,
      ⟨[.part .fullIdent, .part .name, .mark .equal, .part .fieldNumber, .mark .semicolon],
        fun t n _ k _ => .ok (.plain none t n k [])⟩]
  | .fieldLabel => [
      ⟨[.key .kwOptional], fun _ => .ok .optional⟩,
      ⟨[.key .kwRequired], fun _ => .ok .required⟩,
      ⟨[.key .kwRepeated], fun _ => .ok .repeated⟩]
  | .fieldNumber => [
      ⟨[.terminal .int], fun t => t.intValue.map Int.toNat⟩]
  | .groupDecl => [
      ⟨[.part .fieldLabel, .key .kwGroup, .part .name, .mark .equal, .part .fieldNumber,
        .part .fieldOptions, .mark .lbrace, .part .messageItems, .mark .rbrace],
        fun l _ n _ k os _ items _ => .ok (.ofItems l n k os items)⟩,
      ⟨[.part .fieldLabel, .key .kwGroup, .part .name, .mark .equal, .part .fieldNumber,
        .part .fieldOptions, .mark .lbrace, .mark .rbrace],
        fun l _ n _ k os _ _ => .ok (.ofItems l n k os [])⟩,
      ⟨[.part .fieldLabel, .key .kwGroup, .part .name, .mark .equal, .part .fieldNumber,
        .mark .lbrace, .part .messageItems, .mark .rbrace],
        fun l _ n _ k _ items _ => .ok (.ofItems l n k [] items)⟩,
      ⟨[.part .fieldLabel, .key .kwGroup, .part .name, .mark .equal, .part .fieldNumber,
        .mark .lbrace, .mark .rbrace],
        fun l _ n _ k _ _ => .ok (.ofItems l n k [] [])⟩]
  | .mapFieldDecl => [
      ⟨[.key .kwMap, .mark .less, .part .fullIdent, .mark .comma, .part .fullIdent, .mark .greater,
        .part .name, .mark .equal, .part .fieldNumber, .part .fieldOptions, .mark .semicolon],
        fun _ _ key _ value _ n _ k os _ => .ok (.ofMap key value n k os)⟩,
      ⟨[.key .kwMap, .mark .less, .part .fullIdent, .mark .comma, .part .fullIdent, .mark .greater,
        .part .name, .mark .equal, .part .fieldNumber, .mark .semicolon],
        fun _ _ key _ value _ n _ k _ => .ok (.ofMap key value n k [])⟩]
  | .oneofDecl => [
      ⟨[.key .kwOneof, .part .name, .mark .lbrace, .part .oneofItems, .mark .rbrace],
        fun _ n _ fs _ => .ok (.ofFields n fs)⟩,
      ⟨[.key .kwOneof, .part .name, .mark .lbrace, .mark .rbrace],
        fun _ n _ _ => .ok (.ofFields n [])⟩]
  | .oneofItems => [
      ⟨[.part .oneofItem], fun fs => .ok fs⟩,
      ⟨[.part .oneofItems, .part .oneofItem], fun fs gs => .ok (fs ++ gs)⟩]
  | .oneofItem => [
      ⟨[.part .oneofField], fun f => .ok [f]⟩,
      ⟨[.part .optionStmt], fun _ => .ok []⟩,
      ⟨[.mark .semicolon], fun _ => .ok []⟩]
  | .oneofField => [
      ⟨[.part .fullIdent, .part .name, .mark .equal, .part .fieldNumber,
        .part .fieldOptions, .mark .semicolon],
        fun t n _ k os _ => .ok (.plain none t n k os)⟩,
      ⟨[.part .fullIdent, .part .name, .mark .equal, .part .fieldNumber, .mark .semicolon],
        fun t n _ k _ => .ok (.plain none t n k [])⟩]
  | .extendDecl => [
      ⟨[.key .kwExtend, .part .fullIdent, .mark .lbrace, .part .extendItems, .mark .rbrace],
        fun _ e _ fs _ => .ok ⟨e.text, fs, e.position⟩⟩,
      ⟨[.key .kwExtend, .part .fullIdent, .mark .lbrace, .mark .rbrace],
        fun _ e _ _ => .ok ⟨e.text, [], e.position⟩⟩]
  | .extendItems => [
      ⟨[.part .extendItem], fun fs => .ok fs⟩,
      ⟨[.part .extendItems, .part .extendItem], fun fs gs => .ok (fs ++ gs)⟩]
  | .extendItem => [
      ⟨[.part .fieldDecl], fun f => .ok [f]⟩,
      ⟨[.mark .semicolon], fun _ => .ok []⟩]
  | .extensionsStmt => [
      ⟨[.key .kwExtensions, .part .numberRanges, .part .fieldOptions, .mark .semicolon],
        fun _ rs _ _ => .ok rs⟩,
      ⟨[.key .kwExtensions, .part .numberRanges, .mark .semicolon], fun _ rs _ => .ok rs⟩]
  | .reservedStmt => [
      ⟨[.key .kwReserved, .part .numberRanges, .mark .semicolon], fun _ rs _ => .ok ⟨rs, []⟩⟩,
      ⟨[.key .kwReserved, .part .reservedNames, .mark .semicolon], fun _ ns _ => .ok ⟨[], ns⟩⟩]
  | .numberRanges => [
      ⟨[.part .numberRange, .part .moreNumberRanges], fun r rs => .ok (r :: rs)⟩,
      ⟨[.part .numberRange], fun r => .ok [r]⟩]
  | .moreNumberRanges => [
      ⟨[.mark .comma, .part .numberRange], fun _ r => .ok [r]⟩,
      ⟨[.part .moreNumberRanges, .mark .comma, .part .numberRange],
        fun rs _ r => .ok (rs ++ [r])⟩]
  | .numberRange => [
      ⟨[.part .signedInt], fun i => .ok ⟨i, some i⟩⟩,
      ⟨[.part .signedInt, .key .kwTo, .part .signedInt], fun i _ j => .ok ⟨i, some j⟩⟩,
      ⟨[.part .signedInt, .key .kwTo, .key .kwMax], fun i _ _ => .ok ⟨i, none⟩⟩]
  | .reservedNames => [
      ⟨[.part .strings, .part .moreReservedNames], fun s ns => .ok (.ofBytes s.bytes :: ns)⟩,
      ⟨[.part .strings], fun s => .ok [.ofBytes s.bytes]⟩]
  | .moreReservedNames => [
      ⟨[.mark .comma, .part .strings], fun _ s => .ok [.ofBytes s.bytes]⟩,
      ⟨[.part .moreReservedNames, .mark .comma, .part .strings],
        fun ns _ s => .ok (ns ++ [.ofBytes s.bytes])⟩]
  /- Enums -/
  | .enumDecl => [
      ⟨[.key .kwEnum, .part .name, .mark .lbrace, .part .enumItems, .mark .rbrace],
        fun _ n _ items _ => .ok (.ofItems n items)⟩,
      ⟨[.key .kwEnum, .part .name, .mark .lbrace, .mark .rbrace],
        fun _ n _ _ => .ok (.ofItems n [])⟩]
  | .enumItems => [
      ⟨[.part .enumItem], fun i => .ok [i]⟩,
      ⟨[.part .enumItems, .part .enumItem], fun is i => .ok (is ++ [i])⟩]
  | .enumItem => [
      ⟨[.part .enumValue], fun v => .ok (.value v)⟩,
      ⟨[.part .optionStmt], fun o => .ok (.option o)⟩,
      ⟨[.part .reservedStmt], fun r => .ok (.reserved r)⟩,
      ⟨[.mark .semicolon], fun _ => .ok .empty⟩]
  | .enumValue => [
      ⟨[.part .enumValueName, .mark .equal, .part .signedInt, .part .fieldOptions,
        .mark .semicolon],
        fun n _ i os _ => .ok (.ofIdent n i os)⟩,
      ⟨[.part .enumValueName, .mark .equal, .part .signedInt, .mark .semicolon],
        fun n _ i _ => .ok (.ofIdent n i [])⟩]
  | .enumValueName => [
      ⟨[.terminal .name], fun t => .ok t.ident⟩,
      ⟨[.key .kwOption], fun t => .ok t.ident⟩,
      ⟨[.key .kwReserved], fun t => .ok t.ident⟩]
  /- Services -/
  | .serviceDecl => [
      ⟨[.key .kwService, .part .name, .mark .lbrace, .part .serviceItems, .mark .rbrace],
        fun _ n _ items _ => .ok (.ofItems n items)⟩,
      ⟨[.key .kwService, .part .name, .mark .lbrace, .mark .rbrace],
        fun _ n _ _ => .ok (.ofItems n [])⟩]
  | .serviceItems => [
      ⟨[.part .serviceItem], fun i => .ok [i]⟩,
      ⟨[.part .serviceItems, .part .serviceItem], fun is i => .ok (is ++ [i])⟩]
  | .serviceItem => [
      ⟨[.part .rpcDecl], fun m => .ok (.method m)⟩,
      ⟨[.part .optionStmt], fun o => .ok (.option o)⟩,
      ⟨[.mark .semicolon], fun _ => .ok .empty⟩]
  | .rpcDecl => [
      ⟨[.key .kwRpc, .part .name, .mark .lparen, .part .rpcType, .mark .rparen, .key .kwReturns,
        .mark .lparen, .part .rpcType, .mark .rparen, .part .rpcBody],
        fun _ n _ input _ _ _ output _ os => .ok (.ofEnds n input output os)⟩]
  | .rpcType => [
      ⟨[.part .streamMark, .part .fullIdent], fun _ i => .ok ⟨i.text, true⟩⟩,
      ⟨[.part .fullIdent], fun i => .ok ⟨i.text, false⟩⟩]
  | .streamMark => [
      ⟨[.key .kwStream], fun _ => .ok ()⟩]
  | .rpcBody => [
      ⟨[.mark .semicolon], fun _ => .ok []⟩,
      ⟨[.mark .lbrace, .part .rpcItems, .mark .rbrace], fun _ os _ => .ok os⟩,
      ⟨[.mark .lbrace, .mark .rbrace], fun _ _ => .ok []⟩]
  | .rpcItems => [
      ⟨[.part .optionStmt], fun o => .ok [o]⟩,
      ⟨[.mark .semicolon], fun _ => .ok []⟩,
      ⟨[.part .rpcItems, .part .optionStmt], fun os o => .ok (os ++ [o])⟩,
      ⟨[.part .rpcItems, .mark .semicolon], fun os _ => .ok os⟩]
  /- Constants -/
  | .constant => [
      ⟨[.part .number], fun c => .ok c⟩,
      ⟨[.part .fullIdent], fun i => .ok (.ofIdent i)⟩,
      ⟨[.part .strings], fun s => .ok (.ofBytes s)⟩,
      ⟨[.part .aggregate], fun c => .ok c⟩]
  | .number => [
      ⟨[.part .sign, .terminal .int], fun s t => Constant.ofInt s t⟩,
      ⟨[.terminal .int], fun t => Constant.ofInt .plus t⟩,
      ⟨[.part .sign, .terminal .float], fun s t => .ok (.ofFloat s t)⟩,
      ⟨[.terminal .float], fun t => .ok (.ofFloat .plus t)⟩,
      ⟨[.part .sign, .terminal .name], fun s t => .ok (.ofSignedWord s t)⟩]
  | .sign => [
      ⟨[.mark .minus], fun _ => .ok .minus⟩,
      ⟨[.mark .plus], fun _ => .ok .plus⟩]
  | .signedInt => [
      ⟨[.mark .minus, .terminal .int], fun _ t => t.intValue.map (- ·)⟩,
      ⟨[.terminal .int], fun t => t.intValue⟩]
  | .strings => [
      ⟨[.part .stringRun], fun ts => ByteString.ofTokens ts⟩]
  | .stringRun => [
      ⟨[.terminal .string], fun t => .ok [t]⟩,
      ⟨[.part .stringRun, .terminal .string], fun ts t => .ok (ts ++ [t])⟩]
  | .aggregate => [
      ⟨[.mark .lbrace, .part .aggregateFields, .mark .rbrace], fun _ es _ => .ok (.ofEntries es)⟩,
      ⟨[.mark .lbrace, .mark .rbrace], fun _ _ => .ok (.ofEntries [])⟩]
  | .aggregateFields => [
      ⟨[.part .aggregateField], fun e => .ok [e]⟩,
      ⟨[.part .aggregateFields, .part .aggregateField], fun es e => .ok (es ++ [e])⟩]
  | .aggregateField => [
      ⟨[.part .aggregateKey, .mark .colon, .part .aggregateValue, .mark .comma],
        fun k _ v _ => .ok (k, v)⟩,
      ⟨[.part .aggregateKey, .mark .colon, .part .aggregateValue, .mark .semicolon],
        fun k _ v _ => .ok (k, v)⟩,
      ⟨[.part .aggregateKey, .mark .colon, .part .aggregateValue], fun k _ v => .ok (k, v)⟩,
      ⟨[.part .aggregateKey, .part .aggregateValue, .mark .comma], fun k v _ => .ok (k, v)⟩,
      ⟨[.part .aggregateKey, .part .aggregateValue, .mark .semicolon], fun k v _ => .ok (k, v)⟩,
      ⟨[.part .aggregateKey, .part .aggregateValue], fun k v => .ok (k, v)⟩]
  | .aggregateKey => [
      ⟨[.part .name], fun n => .ok n.text⟩,
      ⟨[.mark .lbracket, .part .fullIdent, .mark .rbracket],
        fun _ i _ => .ok ("[" ++ i.text ++ "]")⟩]
  | .aggregateValue => [
      ⟨[.part .constant], fun c => .ok c.value⟩,
      ⟨[.part .aggregateList], fun v => .ok v⟩]
  | .aggregateList => [
      ⟨[.mark .lbracket, .part .aggregateValue, .part .moreAggregateValues, .mark .rbracket],
        fun _ v vs _ => .ok (.list (v :: vs))⟩,
      ⟨[.mark .lbracket, .part .aggregateValue, .mark .rbracket], fun _ v _ => .ok (.list [v])⟩,
      ⟨[.mark .lbracket, .mark .rbracket], fun _ _ => .ok (.list [])⟩]
  | .moreAggregateValues => [
      ⟨[.mark .comma, .part .aggregateValue], fun _ v => .ok [v]⟩,
      ⟨[.part .moreAggregateValues, .mark .comma, .part .aggregateValue],
        fun vs _ v => .ok (vs ++ [v])⟩]
  /- Identifiers -/
  | .fullIdent => [
      ⟨[.part .leadingDot, .part .name, .part .moreNames],
        fun _ n ns => .ok (Ident.join n ns).absolute⟩,
      ⟨[.part .leadingDot, .part .name], fun _ n => .ok n.absolute⟩,
      ⟨[.part .name, .part .moreNames], fun n ns => .ok (.join n ns)⟩,
      ⟨[.part .name], fun n => .ok n⟩]
  | .leadingDot => [
      ⟨[.mark .dot], fun _ => .ok ()⟩]
  | .moreNames => [
      ⟨[.mark .dot, .part .name], fun _ n => .ok [n]⟩,
      ⟨[.part .moreNames, .mark .dot, .part .name], fun ns _ n => .ok (ns ++ [n])⟩]
  | .name => [
      ⟨[.terminal .name], fun t => .ok t.ident⟩]

end ProtoSchema
