import ProtoSchema.Proofs.Grammar.Written
import ProtoSchema.Proofs.Token.Literal

/-!
# Values and the pieces they leave

The rules of the compiled grammar hand values from symbol to symbol, the phrases hand on pieces.
`Nonterminal.Leaves` relates the two: a declaration is one piece that holds it, the items of a body
leave their pieces one after the other, and an empty statement leaves none. The builders of the
phrases find in such pieces what the rules are given.
-/

namespace ProtoSchema

/-! ## Items -/

/-- The pieces that an item of a file leaves in it. -/
def TopItem.pieces : TopItem → List Piece
  | dependency i => [⟨.dependency, i⟩]
  | package p => [⟨.package, p⟩]
  | option o => [⟨.option, o⟩]
  | message m => [⟨.message, m⟩]
  | enum e => [⟨.enum, e⟩]
  | service s => [⟨.service, s⟩]
  | extend e => [⟨.extend, e⟩]
  | empty => []

/-- The pieces that an item of a message leaves in it. -/
def MessageItem.pieces : MessageItem → List Piece
  | field f => [⟨.field, f⟩]
  | group g => [⟨.group, g⟩]
  | oneof o => [⟨.oneof, o⟩]
  | message m => [⟨.message, m⟩]
  | enum e => [⟨.enum, e⟩]
  | extend e => [⟨.extend, e⟩]
  | extensions rs => [⟨.extensions, rs⟩]
  | reserved r => [⟨.reserved, r⟩]
  | option o => [⟨.option, o⟩]
  | empty => []

/-- The pieces that an item of an enum leaves in it. -/
def EnumItem.pieces : EnumItem → List Piece
  | value v => [⟨.enumValue, v⟩]
  | option o => [⟨.option, o⟩]
  | reserved r => [⟨.reserved, r⟩]
  | empty => []

/-- The pieces that an item of a service leaves in it. -/
def ServiceItem.pieces : ServiceItem → List Piece
  | method m => [⟨.method, m⟩]
  | option o => [⟨.option, o⟩]
  | empty => []

/-- The pieces that a nonterminal with a value leaves behind. -/
@[simp] def Nonterminal.Leaves : (n : Nonterminal) → n.Value → List Piece → Prop
  | .schemaFile, f, ps => ps = [⟨.file, f⟩]
  | .topItems, is, ps => ps = is.flatMap TopItem.pieces
  | .topItem, i, ps => ps = i.pieces
  | .dialectStmt, d, ps => ps = [⟨.dialect, d⟩]
  | .importStmt, i, ps => ps = [⟨.dependency, i⟩]
  | .importModifier, m, ps => ps = [⟨.modifier, m⟩]
  | .packageStmt, p, ps => ps = [⟨.package, p⟩]
  | .optionStmt, o, ps | .fieldOption, o, ps => ps = [⟨.option, o⟩]
  | .fieldOptions, os, ps => ps = [⟨.fieldOptions, os⟩]
  | .moreFieldOptions, os, ps | .rpcBody, os, ps | .rpcItems, os, ps =>
    ps = Piece.each .option os
  | .optionName, i, ps | .optionNamePart, i, ps | .extensionName, i, ps | .enumValueName, i, ps
  | .name, i, ps => ps = [⟨.name, i⟩]
  | .moreOptionNameParts, is, ps | .moreNames, is, ps => ps = Piece.each .name is
  | .messageDecl, m, ps => ps = [⟨.message, m⟩]
  | .messageItems, is, ps => ps = is.flatMap MessageItem.pieces
  | .messageItem, i, ps => ps = i.pieces
  | .fieldDecl, f, ps | .oneofField, f, ps | .mapFieldDecl, f, ps => ps = [⟨.field, f⟩]
  | .fieldLabel, l, ps => ps = [⟨.label, l⟩]
  | .fieldNumber, k, ps => ps = [⟨.fieldNumber, k⟩]
  | .groupDecl, g, ps => ps = [⟨.group, g⟩]
  | .oneofDecl, o, ps => ps = [⟨.oneof, o⟩]
  -- the options in a oneof are read and forgotten
  | .oneofItems, fs, ps | .oneofItem, fs, ps | .extendItems, fs, ps | .extendItem, fs, ps =>
    Piece.allOf .field ps = fs
  | .extendDecl, e, ps => ps = [⟨.extend, e⟩]
  | .extensionsStmt, rs, ps => ps = [⟨.extensions, rs⟩]
  | .reservedStmt, r, ps => ps = [⟨.reserved, r⟩]
  | .numberRanges, rs, ps => ps = [⟨.ranges, rs⟩]
  | .moreNumberRanges, rs, ps => ps = Piece.each .range rs
  | .numberRange, r, ps => ps = [⟨.range, r⟩]
  | .reservedNames, ns, ps => ps = [⟨.reservedNames, ns⟩]
  | .moreReservedNames, ns, ps =>
    ∃ bs : List ByteString, ps = Piece.each .strings bs ∧ ns = bs.map (.ofBytes ·.bytes)
  | .enumDecl, e, ps => ps = [⟨.enum, e⟩]
  | .enumItems, is, ps => ps = is.flatMap EnumItem.pieces
  | .enumItem, i, ps => ps = i.pieces
  | .enumValue, v, ps => ps = [⟨.enumValue, v⟩]
  | .serviceDecl, s, ps => ps = [⟨.service, s⟩]
  | .serviceItems, is, ps => ps = is.flatMap ServiceItem.pieces
  | .serviceItem, i, ps => ps = i.pieces
  | .rpcDecl, m, ps => ps = [⟨.method, m⟩]
  | .rpcType, t, ps => ps = [⟨.rpcType, t⟩]
  | .streamMark, _, ps => ps = [⟨.stream, ()⟩]
  | .constant, c, ps | .number, c, ps | .aggregate, c, ps => ps = [⟨.constant, c⟩]
  | .sign, s, ps => ps = [⟨.sign, s⟩]
  | .signedInt, i, ps => ps = [⟨.integer, i⟩]
  | .strings, b, ps => ps = [⟨.strings, b⟩]
  | .stringRun, ts, ps => ps = Piece.each .token ts ∧ ts ≠ []
  | .aggregateFields, es, ps => ps = Piece.each .entry es
  | .aggregateField, e, ps => ps = [⟨.entry, e⟩]
  | .aggregateKey, k, ps => ps = [⟨.key, k⟩]
  -- a list is a piece of its own, and a constant has a place besides its value
  | .aggregateValue, v, ps | .aggregateList, v, ps => ∃ p : Piece, ps = [p] ∧ p.plain? = some v
  | .moreAggregateValues, vs, ps => ps.mapM Piece.plain? = some vs
  | .fullIdent, i, ps => ps = [⟨.ident, i⟩]
  | .leadingDot, _, ps => ps = [⟨.leadingDot, ()⟩]

/-! ## Builders on what is left -/

namespace Piece

section

variable (n : Ident)

/-- Adding the pieces of a body one by one sorts its items. -/
theorem messageOf_flatMap (is : List MessageItem) :
    messageOf n (is.flatMap MessageItem.pieces) = .ofItems n is := by
  induction is using List.reverseRecOn with
  | nil => rfl
  | append_singleton is i ih =>
    have hlast : messageOf n ((is ++ [i]).flatMap MessageItem.pieces) =
        i.pieces.foldl addTo (.ofItems n is) := by
      rw [List.flatMap_append, messageOf, List.foldl_append, ← messageOf, ih,
        List.flatMap_singleton]
    rw [hlast]
    cases i <;> simp [MessageItem.pieces, addTo, MessageDecl.ofItems, MessageItem.fields,
      MessageItem.message?, MessageItem.enum?, MessageItem.extend?, MessageItem.oneofName?,
      MessageItem.option?, MessageItem.extensionRanges, MessageItem.reserved?]

@[simp]
theorem messageOf_nil : messageOf n [] = .ofItems n [] := messageOf_flatMap n []

/-- Neither the number of a group nor its options belong to its body. -/
theorem group_flatMap (l : Label) (k : Nat) (os? : Option (List OptionDecl))
    (is : List MessageItem) :
    group (⟨.label, l⟩ :: ⟨.name, n⟩ :: ⟨.fieldNumber, k⟩ ::
        (each .fieldOptions os?.toList ++ is.flatMap MessageItem.pieces)) =
      some ⟨.group, .ofItems l n k (os?.getD []) is⟩ := by
  have hkind : ∀ p ∈ is.flatMap MessageItem.pieces,
      p.kind ≠ .fieldNumber ∧ p.kind ≠ .fieldOptions := by
    intro p hp
    obtain ⟨i, -, hp⟩ := List.mem_flatMap.mp hp
    cases i <;> simp_all [MessageItem.pieces]
  have hnumber : allOf .fieldNumber (is.flatMap MessageItem.pieces) = [] :=
    allOf_eq_nil fun p hp => (hkind p hp).1
  have hoptions : allOf .fieldOptions (is.flatMap MessageItem.pieces) = [] :=
    allOf_eq_nil fun p hp => (hkind p hp).2
  have hbody : (is.flatMap MessageItem.pieces).filter isOfBody = is.flatMap MessageItem.pieces :=
    List.filter_eq_self.mpr fun p hp => decide_eq_true (hkind p hp)
  cases os? <;>
    simp [group, each, isOfBody, hnumber, hoptions, hbody, messageOf_flatMap, GroupDecl.ofItems]

theorem enum_flatMap (is : List EnumItem) :
    enum (⟨.name, n⟩ :: is.flatMap EnumItem.pieces) = some ⟨.enum, .ofItems n is⟩ := by
  have hvalues : allOf .enumValue (is.flatMap EnumItem.pieces) = is.filterMap EnumItem.value? :=
    allOf_flatMap (fun i => by cases i <;> rfl) is
  have hoptions : allOf .option (is.flatMap EnumItem.pieces) = is.filterMap EnumItem.option? :=
    allOf_flatMap (fun i => by cases i <;> rfl) is
  have hreserved : allOf .reserved (is.flatMap EnumItem.pieces) =
      is.filterMap EnumItem.reserved? :=
    allOf_flatMap (fun i => by cases i <;> rfl) is
  simp [enum, hvalues, hoptions, hreserved, EnumDecl.ofItems]

theorem enum_nil : enum [⟨.name, n⟩] = some ⟨.enum, .ofItems n []⟩ := enum_flatMap n []

theorem service_flatMap (is : List ServiceItem) :
    service (⟨.name, n⟩ :: is.flatMap ServiceItem.pieces) = some ⟨.service, .ofItems n is⟩ := by
  have hmethods : allOf .method (is.flatMap ServiceItem.pieces) =
      is.filterMap ServiceItem.method? :=
    allOf_flatMap (fun i => by cases i <;> rfl) is
  have hoptions : allOf .option (is.flatMap ServiceItem.pieces) =
      is.filterMap ServiceItem.option? :=
    allOf_flatMap (fun i => by cases i <;> rfl) is
  simp [service, hmethods, hoptions, ServiceDecl.ofItems]

theorem service_nil : service [⟨.name, n⟩] = some ⟨.service, .ofItems n []⟩ := service_flatMap n []

end

/-- A file that has one package at most is built of its items. -/
theorem file_flatMap (d? : Option Dialect) (is : List TopItem) {f : SchemaFile}
    (h : SchemaFile.ofItems (d?.getD .proto2) is = .ok f) :
    file (each .dialect d?.toList ++ is.flatMap TopItem.pieces) = some ⟨.file, f⟩ := by
  have hfind {k : PieceKind} {g : TopItem → Option k.Value}
      (hg : ∀ i, allOf k i.pieces = (g i).toList) :
      allOf k (is.flatMap TopItem.pieces) = is.filterMap g := allOf_flatMap hg is
  have hpackages := hfind (k := .package) (g := TopItem.package?) fun i => by cases i <;> rfl
  have hdialect := hfind (k := .dialect) (g := fun _ => none) fun i => by cases i <;> rfl
  have himports := hfind (k := .dependency) (g := TopItem.dependency?) fun i => by
    cases i <;> rfl
  have hmessages := hfind (k := .message) (g := TopItem.message?) fun i => by cases i <;> rfl
  have henums := hfind (k := .enum) (g := TopItem.enum?) fun i => by cases i <;> rfl
  have hservices := hfind (k := .service) (g := TopItem.service?) fun i => by cases i <;> rfl
  have hextends := hfind (k := .extend) (g := TopItem.extend?) fun i => by cases i <;> rfl
  have hoptions := hfind (k := .option) (g := TopItem.option?) fun i => by cases i <;> rfl
  rcases hp : is.filterMap TopItem.package? with _ | ⟨p, _ | ⟨q, ps⟩⟩
  · simp only [SchemaFile.ofItems, hp, Except.ok.injEq] at h
    subst h
    cases d? <;> simp [file, each, hpackages, hdialect, himports, hmessages, henums, hservices,
      hextends, hoptions, hp]
  · simp only [SchemaFile.ofItems, hp, Except.ok.injEq] at h
    subst h
    cases d? <;> simp [file, each, hpackages, hdialect, himports, hmessages, henums, hservices,
      hextends, hoptions, hp]
  · simp [SchemaFile.ofItems, hp] at h

end Piece

/-! ## Builders on tokens -/

/-- The text of a keyword is its spelling. -/
theorem Token.text_of_mem_keyword {t : Token} {k : Keyword}
    (h : t.lexeme ∈ (Terminal.keyword k).language) : t.text = k.spelling := by
  have hlexeme : t.lexeme = k.spelling.toList := h
  rw [text, hlexeme, String.ofList_toList]

/-- The text of a mark is its character. -/
theorem Token.text_of_mem_mark {t : Token} {m : Mark}
    (h : t.lexeme ∈ (Terminal.mark m).language) : t.text = String.ofList [m.character] := by
  have hlexeme : t.lexeme = [m.character] := h
  rw [text, hlexeme]

namespace Piece

variable {t : Token}

theorem modifier_token {m : ImportModifier} (h : t.text = m.name) :
    modifier [⟨.token, t⟩] = some ⟨.modifier, m⟩ := by
  cases m <;> simp [modifier, h, ImportModifier.name]

theorem label_token {l : Label} (h : t.text = l.name) :
    label [⟨.token, t⟩] = some ⟨.label, l⟩ := by
  cases l <;> simp [label, h, Label.name]

theorem sign_token {s : Sign} (h : t.text = s.text) : sign [⟨.token, t⟩] = some ⟨.sign, s⟩ := by
  cases s <;> simp [sign, h, Sign.text]

theorem fieldNumber_token {n : Nat} (ht : t.lexeme ∈ Lexeme.integers)
    (h : t.intValue.map Int.toNat = .ok n) :
    fieldNumber [⟨.token, t⟩] = some ⟨.fieldNumber, n⟩ := by
  cases hvalue : t.intValue with
  | error e => simp [hvalue, Except.map] at h
  | ok i =>
    obtain ⟨m, rfl⟩ := t.exists_intValue_eq_ofNat ht hvalue
    obtain rfl : m = n := by simpa [hvalue, Except.map] using h
    simp [fieldNumber, hvalue]

theorem dialect_strings {b : ByteString} {d : Dialect} (h : Dialect.ofBytes b = .ok d) :
    dialect [⟨.strings, b⟩] = some ⟨.dialect, d⟩ := by
  unfold Dialect.ofBytes at h
  simp only at h
  split at h
  · next hname =>
    obtain rfl := Except.ok.inj h
    simp [dialect, hname]
  · cases h

theorem signedInt_tokens {minus : Token} {i : Int} (h : t.intValue.map (- ·) = .ok i) :
    signedInt [⟨.token, minus⟩, ⟨.token, t⟩] = some ⟨.integer, i⟩ := by
  cases hvalue : t.intValue with
  | error e => simp [hvalue, Except.map] at h
  | ok j =>
    obtain rfl : -j = i := by simpa [hvalue, Except.map] using h
    simp [signedInt, hvalue, Except.toOption]

theorem signedInt_token {i : Int} (h : t.intValue = .ok i) :
    signedInt [⟨.token, t⟩] = some ⟨.integer, i⟩ := by
  simp [signedInt, h, Except.toOption]

theorem number_int (s? : Option Sign) {c : Constant} (ht : t.terminal = .int)
    (h : Constant.ofInt (s?.getD .plus) t = .ok c) :
    number (each .sign s?.toList ++ [⟨.token, t⟩]) = some ⟨.constant, c⟩ := by
  cases hvalue : t.intValue with
  | error e => simp [Constant.ofInt, hvalue, Except.map] at h
  | ok i =>
    simp only [Constant.ofInt, hvalue, Except.map, Except.ok.injEq] at h
    subst h
    rcases s? with _ | (_ | _) <;> simp [number, each, ht, hvalue, Except.toOption, Sign.apply]

theorem number_float (s? : Option Sign) (ht : t.terminal = .float) :
    number (each .sign s?.toList ++ [⟨.token, t⟩]) =
      some ⟨.constant, .ofFloat (s?.getD .plus) t⟩ := by
  rcases s? with _ | (_ | _) <;> simp [number, each, ht, Constant.ofFloat, Sign.isMinus]

theorem number_word (s : Sign) (ht : t.terminal = .name) :
    number [⟨.sign, s⟩, ⟨.token, t⟩] = some ⟨.constant, .ofSignedWord s t⟩ := by
  by_cases hinf : t.text = "inf"
  · cases s <;> simp [number, ht, Constant.ofSignedWord, Sign.isMinus, hinf]
  · by_cases hnan : t.text = "nan"
    · simp [number, ht, Constant.ofSignedWord, hnan]
    · simp [number, ht, Constant.ofSignedWord, hinf, hnan]

/-- If every token has bytes, they are found one by one. -/
theorem mapM_bytes_toOption {ts : List Token} {parts : List (List UInt8)}
    (h : ts.mapM Token.bytes = .ok parts) :
    ts.mapM (fun t => t.bytes.toOption) = some parts := by
  induction ts generalizing parts with
  | nil =>
    obtain rfl := Except.ok.inj h
    rfl
  | cons t ts ih =>
    cases hfirst : t.bytes with
    | error e => simp [hfirst, bind, Except.bind] at h
    | ok bytes =>
      cases hothers : ts.mapM Token.bytes with
      | error e => simp [hfirst, hothers, bind, Except.bind] at h
      | ok others =>
        obtain rfl : bytes :: others = parts := by
          simpa [hfirst, hothers, bind, Except.bind, pure, Except.pure] using h
        have hbytes : t.bytes.toOption = some bytes := by
          rw [hfirst]
          rfl
        simp [hbytes, ih hothers]

theorem strings_map {ts : List Token} {b : ByteString} (hne : ts ≠ [])
    (h : ByteString.ofTokens ts = .ok b) :
    strings (each .token ts) = some ⟨.strings, b⟩ := by
  obtain ⟨first, others, rfl⟩ := List.exists_cons_of_ne_nil hne
  cases hparts : (first :: others).mapM Token.bytes with
  | error e => simp only [ByteString.ofTokens, hparts, Except.map, reduceCtorEq] at h
  | ok parts =>
    simp only [ByteString.ofTokens, hparts, Except.map, Except.ok.injEq] at h
    subst h
    rw [strings, allAre?_each]
    simp only [Option.bind_eq_bind, Option.bind_some, mapM_bytes_toOption hparts]
    simp

end Piece

end ProtoSchema
