import ProtoSchema.Proofs.Grammar.Traces
import ProtoSchema.Proofs.Schema.Fields

/-!
# Moved declarations

Places in a text enter the declarations of a file in one way only: each declaration keeps the place
of a token. So where the tokens of a tree are moved, what the tree stands for is the same but for
its places, which move along (`Tree.value_move`).
-/

namespace ProtoSchema

/-! ## Declarations -/

section

variable (σ : Position → Position)

/-- A name at another place. -/
def Ident.move (i : Ident) : Ident := { i with position := σ i.position }

/-- The bytes of string literals that stand elsewhere. -/
def ByteString.move (b : ByteString) : ByteString := { b with position := σ b.position }

/-- A value at another place. -/
def Constant.move (c : Constant) : Constant := { c with position := c.position.map σ }

/-- An option at another place. -/
def OptionDecl.move (o : OptionDecl) : OptionDecl :=
  { o with value := o.value.move σ, position := σ o.position }

/-- What a field holds, where the type stands elsewhere. -/
def FieldShape.move : FieldShape → FieldShape
  | named type position => named type (position.map σ)
  | group type => group type
  | map key value position => map key value (σ position)

/-- A field at another place. -/
def FieldDecl.move (f : FieldDecl) : FieldDecl :=
  { f with
    shape := f.shape.move σ
    options := f.options.map (OptionDecl.move σ)
    position := σ f.position }

/-- A value of an enum at another place. -/
def EnumValueDecl.move (v : EnumValueDecl) : EnumValueDecl :=
  { v with options := v.options.map (OptionDecl.move σ), position := σ v.position }

/-- An enum at another place. -/
def EnumDecl.move (e : EnumDecl) : EnumDecl :=
  { e with
    values := e.values.map (EnumValueDecl.move σ)
    options := e.options.map (OptionDecl.move σ)
    position := σ e.position }

/-- An extend block at another place. -/
def ExtendDecl.move (e : ExtendDecl) : ExtendDecl :=
  { e with fields := e.fields.map (FieldDecl.move σ), position := σ e.position }

mutual

/-- A message at another place. -/
def MessageDecl.move : MessageDecl → MessageDecl
  | ⟨name, fields, messages, enums, extendBlocks, oneofs, options, extensionRanges,
      reservedRanges, reservedNames, position⟩ =>
    ⟨name, fields.map (FieldDecl.move σ), MessageDecl.moveAll messages,
      enums.map (EnumDecl.move σ), extendBlocks.map (ExtendDecl.move σ), oneofs,
      options.map (OptionDecl.move σ), extensionRanges, reservedRanges, reservedNames, σ position⟩

/-- Messages at other places. -/
def MessageDecl.moveAll : List MessageDecl → List MessageDecl
  | [] => []
  | m :: ms => m.move :: MessageDecl.moveAll ms

end

/-- A method at another place. -/
def MethodDecl.move (m : MethodDecl) : MethodDecl :=
  { m with options := m.options.map (OptionDecl.move σ), position := σ m.position }

/-- A service at another place. -/
def ServiceDecl.move (s : ServiceDecl) : ServiceDecl :=
  { s with
    methods := s.methods.map (MethodDecl.move σ)
    options := s.options.map (OptionDecl.move σ)
    position := σ s.position }

/-- An import at another place. -/
def ImportDecl.move (i : ImportDecl) : ImportDecl := { i with position := σ i.position }

/-- A file whose declarations stand elsewhere. -/
def SchemaFile.move (f : SchemaFile) : SchemaFile :=
  { f with
    imports := f.imports.map (ImportDecl.move σ)
    messages := f.messages.map (MessageDecl.move σ)
    enums := f.enums.map (EnumDecl.move σ)
    services := f.services.map (ServiceDecl.move σ)
    extendBlocks := f.extendBlocks.map (ExtendDecl.move σ)
    options := f.options.map (OptionDecl.move σ) }

/-! ## Parts of declarations -/

/-- An item of a file at another place. -/
def TopItem.move : TopItem → TopItem
  | dependency i => dependency (i.move σ)
  | package name => package (name.move σ)
  | option o => option (o.move σ)
  | message m => message (m.move σ)
  | enum e => enum (e.move σ)
  | service s => service (s.move σ)
  | extend e => extend (e.move σ)
  | empty => empty

/-- A group at another place. -/
def GroupDecl.move (g : GroupDecl) : GroupDecl := ⟨g.field.move σ, g.body.move σ⟩

/-- A oneof whose members stand elsewhere. -/
def OneofDecl.move (o : OneofDecl) : OneofDecl :=
  { o with fields := o.fields.map (FieldDecl.move σ) }

/-- An item of a message at another place. -/
def MessageItem.move : MessageItem → MessageItem
  | field f => field (f.move σ)
  | group g => group (g.move σ)
  | oneof o => oneof (o.move σ)
  | message m => message (m.move σ)
  | enum e => enum (e.move σ)
  | extend e => extend (e.move σ)
  | extensions ranges => extensions ranges
  | reserved r => reserved r
  | option o => option (o.move σ)
  | empty => empty

/-- An item of an enum at another place. -/
def EnumItem.move : EnumItem → EnumItem
  | value v => value (v.move σ)
  | option o => option (o.move σ)
  | reserved r => reserved r
  | empty => empty

/-- An item of a service at another place. -/
def ServiceItem.move : ServiceItem → ServiceItem
  | method m => method (m.move σ)
  | option o => option (o.move σ)
  | empty => empty

/-- What a nonterminal stands for, at another place. -/
def Nonterminal.move : (n : Nonterminal) → n.Value → n.Value
  | .schemaFile => SchemaFile.move σ
  | .topItems => List.map (TopItem.move σ)
  | .topItem => TopItem.move σ
  | .importStmt => ImportDecl.move σ
  | .packageStmt | .optionName | .optionNamePart | .extensionName | .enumValueName | .fullIdent
  | .name => Ident.move σ
  | .moreOptionNameParts | .moreNames => List.map (Ident.move σ)
  | .optionStmt | .fieldOption => OptionDecl.move σ
  | .fieldOptions | .moreFieldOptions | .rpcBody | .rpcItems => List.map (OptionDecl.move σ)
  | .messageDecl => MessageDecl.move σ
  | .messageItems => List.map (MessageItem.move σ)
  | .messageItem => MessageItem.move σ
  | .fieldDecl | .mapFieldDecl | .oneofField => FieldDecl.move σ
  | .oneofItems | .oneofItem | .extendItems | .extendItem => List.map (FieldDecl.move σ)
  | .groupDecl => GroupDecl.move σ
  | .oneofDecl => OneofDecl.move σ
  | .extendDecl => ExtendDecl.move σ
  | .enumDecl => EnumDecl.move σ
  | .enumItems => List.map (EnumItem.move σ)
  | .enumItem => EnumItem.move σ
  | .enumValue => EnumValueDecl.move σ
  | .serviceDecl => ServiceDecl.move σ
  | .serviceItems => List.map (ServiceItem.move σ)
  | .serviceItem => ServiceItem.move σ
  | .rpcDecl => MethodDecl.move σ
  | .constant | .number | .aggregate => Constant.move σ
  | .strings => ByteString.move σ
  | .stringRun => List.map (Token.move σ)
  | _ => id

/-- What a symbol stands for, at another place. -/
def Symbol.move : (s : Symbol) → s.Value → s.Value
  | .terminal _ => Token.move σ
  | .nonterminal n => n.move σ

end

/-! ## Assembly -/

section

variable {σ : Position → Position}

theorem MessageDecl.moveAll_eq_map (ms : List MessageDecl) : moveAll σ ms = ms.map (move σ) := by
  induction ms with
  | nil => rfl
  | cons m ms ih => rw [moveAll, ih, List.map_cons]

/-! ### Names, options and constants -/

@[simp] theorem Token.ident_move (t : Token) : (t.move σ).ident = t.ident.move σ := rfl

@[simp] theorem Ident.text_move (i : Ident) : (i.move σ).text = i.text := rfl

@[simp] theorem Ident.position_move (i : Ident) : (i.move σ).position = σ i.position := rfl

@[simp] theorem ByteString.position_move (b : ByteString) :
    (b.move σ).position = σ b.position := rfl

@[simp] theorem ByteString.bytes_move (b : ByteString) : (b.move σ).bytes = b.bytes := rfl

@[simp] theorem Constant.value_move (c : Constant) : (c.move σ).value = c.value := rfl

@[simp] theorem Ident.move_absolute (i : Ident) : i.absolute.move σ = (i.move σ).absolute := rfl

@[simp] theorem Ident.move_parenthesised (i : Ident) :
    i.parenthesised.move σ = (i.move σ).parenthesised := rfl

@[simp] theorem Constant.move_ofIdent (i : Ident) :
    (ofIdent i).move σ = ofIdent (i.move σ) := rfl

@[simp] theorem Constant.move_ofBytes (b : ByteString) :
    (ofBytes b).move σ = ofBytes (b.move σ) := rfl

@[simp] theorem Constant.move_ofEntries (entries : List (String × Value)) :
    (ofEntries entries).move σ = ofEntries entries := rfl

@[simp] theorem Constant.move_ofFloat (sign : Sign) (t : Token) :
    (ofFloat sign t).move σ = ofFloat sign (t.move σ) := rfl

@[simp] theorem Constant.move_ofSignedWord (sign : Sign) (t : Token) :
    (ofSignedWord sign t).move σ = ofSignedWord sign (t.move σ) := rfl

@[simp] theorem OptionDecl.move_ofIdent (name : Ident) (value : Constant) :
    (ofIdent name value).move σ = ofIdent (name.move σ) (value.move σ) := rfl

@[simp] theorem Ident.move_join (first : Ident) (others : List Ident) :
    (join first others).move σ = join (first.move σ) (others.map (move σ)) := by
  simp [join, move, Function.comp_def]

/-! ### Members of declarations -/

@[simp] theorem FieldDecl.move_plain (label : Option Label) (type name : Ident) (number : Nat)
    (options : List OptionDecl) :
    (plain label type name number options).move σ =
      plain label (type.move σ) (name.move σ) number (options.map (OptionDecl.move σ)) := rfl

@[simp] theorem FieldDecl.move_ofMap (key value name : Ident) (number : Nat)
    (options : List OptionDecl) :
    (ofMap key value name number options).move σ =
      ofMap (key.move σ) (value.move σ) (name.move σ) number (options.map (OptionDecl.move σ)) :=
  rfl

@[simp] theorem EnumValueDecl.move_ofIdent (name : Ident) (number : Int)
    (options : List OptionDecl) :
    (ofIdent name number options).move σ =
      ofIdent (name.move σ) number (options.map (OptionDecl.move σ)) := rfl

@[simp] theorem MethodDecl.move_ofEnds (name : Ident) (input output : RpcType)
    (options : List OptionDecl) :
    (ofEnds name input output options).move σ =
      ofEnds (name.move σ) input output (options.map (OptionDecl.move σ)) := rfl

@[simp] theorem OneofDecl.move_ofFields (name : Ident) (fields : List FieldDecl) :
    (ofFields name fields).move σ = ofFields (name.move σ) (fields.map (FieldDecl.move σ)) := by
  simp [ofFields, move, Ident.move, FieldDecl.move, Function.comp_def]

/-! ### Bodies -/

namespace MessageItem

variable (i : MessageItem)

@[simp] theorem fields_move : (i.move σ).fields = i.fields.map (FieldDecl.move σ) := by
  cases i <;> rfl

@[simp] theorem message?_move : (i.move σ).message? = i.message?.map (MessageDecl.move σ) := by
  cases i <;> rfl

@[simp] theorem enum?_move : (i.move σ).enum? = i.enum?.map (EnumDecl.move σ) := by
  cases i <;> rfl

@[simp] theorem extend?_move : (i.move σ).extend? = i.extend?.map (ExtendDecl.move σ) := by
  cases i <;> rfl

@[simp] theorem oneofName?_move : (i.move σ).oneofName? = i.oneofName? := by
  cases i <;> rfl

@[simp] theorem option?_move : (i.move σ).option? = i.option?.map (OptionDecl.move σ) := by
  cases i <;> rfl

@[simp] theorem extensionRanges_move : (i.move σ).extensionRanges = i.extensionRanges := by
  cases i <;> rfl

@[simp] theorem reserved?_move : (i.move σ).reserved? = i.reserved? := by
  cases i <;> rfl

end MessageItem

@[simp] theorem MessageDecl.move_ofItems (name : Ident) (items : List MessageItem) :
    (ofItems name items).move σ = ofItems (name.move σ) (items.map (MessageItem.move σ)) := by
  simp [ofItems, move, moveAll_eq_map, Ident.move, List.map_flatMap, List.flatMap_map,
    List.map_filterMap, List.filterMap_map]

@[simp] theorem GroupDecl.move_ofItems (label : Label) (name : Ident) (number : Nat)
    (options : List OptionDecl) (items : List MessageItem) :
    (ofItems label name number options items).move σ = ofItems label (name.move σ) number
      (options.map (OptionDecl.move σ)) (items.map (MessageItem.move σ)) := by
  rw [move, ofItems, ofItems, MessageDecl.move_ofItems]
  rfl

namespace EnumItem

variable (i : EnumItem)

@[simp] theorem value?_move : (i.move σ).value? = i.value?.map (EnumValueDecl.move σ) := by
  cases i <;> rfl

@[simp] theorem option?_move : (i.move σ).option? = i.option?.map (OptionDecl.move σ) := by
  cases i <;> rfl

@[simp] theorem reserved?_move : (i.move σ).reserved? = i.reserved? := by
  cases i <;> rfl

end EnumItem

@[simp] theorem EnumDecl.move_ofItems (name : Ident) (items : List EnumItem) :
    (ofItems name items).move σ = ofItems (name.move σ) (items.map (EnumItem.move σ)) := by
  simp [ofItems, move, Ident.move, List.map_filterMap, List.filterMap_map]

namespace ServiceItem

variable (i : ServiceItem)

@[simp] theorem method?_move : (i.move σ).method? = i.method?.map (MethodDecl.move σ) := by
  cases i <;> rfl

@[simp] theorem option?_move : (i.move σ).option? = i.option?.map (OptionDecl.move σ) := by
  cases i <;> rfl

end ServiceItem

@[simp] theorem ServiceDecl.move_ofItems (name : Ident) (items : List ServiceItem) :
    (ofItems name items).move σ = ofItems (name.move σ) (items.map (ServiceItem.move σ)) := by
  simp [ofItems, move, Ident.move, List.map_filterMap, List.filterMap_map]

namespace TopItem

variable (i : TopItem)

@[simp] theorem dependency?_move :
    (i.move σ).dependency? = i.dependency?.map (ImportDecl.move σ) := by
  cases i <;> rfl

@[simp] theorem package?_move : (i.move σ).package? = i.package?.map (Ident.move σ) := by
  cases i <;> rfl

@[simp] theorem option?_move : (i.move σ).option? = i.option?.map (OptionDecl.move σ) := by
  cases i <;> rfl

@[simp] theorem message?_move : (i.move σ).message? = i.message?.map (MessageDecl.move σ) := by
  cases i <;> rfl

@[simp] theorem enum?_move : (i.move σ).enum? = i.enum?.map (EnumDecl.move σ) := by
  cases i <;> rfl

@[simp] theorem service?_move : (i.move σ).service? = i.service?.map (ServiceDecl.move σ) := by
  cases i <;> rfl

@[simp] theorem extend?_move : (i.move σ).extend? = i.extend?.map (ExtendDecl.move σ) := by
  cases i <;> rfl

end TopItem

theorem SchemaFile.move_ofItems {dialect : Dialect} {items : List TopItem} {f : SchemaFile}
    (h : ofItems dialect items = .ok f) :
    ofItems dialect (items.map (TopItem.move σ)) = .ok (f.move σ) := by
  have hpackages : (items.map (TopItem.move σ)).filterMap TopItem.package? =
      (items.filterMap TopItem.package?).map (Ident.move σ) := by
    simp [List.map_filterMap, List.filterMap_map]
  unfold ofItems at h ⊢
  rw [hpackages]
  split at h
  · cases h
  · next hsingle =>
    obtain rfl := Except.ok.inj h
    split
    · next hmoved =>
      obtain ⟨first, others, hfirst, -, hothers⟩ := List.map_eq_cons_iff.mp hmoved
      obtain ⟨second, more, rfl, -, -⟩ := List.map_eq_cons_iff.mp hothers
      exact (hsingle _ _ _ hfirst).elim
    · simp [move, Ident.move, List.map_filterMap, List.filterMap_map, Option.map_map,
        Function.comp_def]

/-! ## Literals -/

theorem Except.map_eq_ok_iff {ε α β : Type} {x : Except ε α} {f : α → β} {b : β} :
    x.map f = .ok b ↔ ∃ a, x = .ok a ∧ f a = b := by
  cases x <;> simp [Except.map]

theorem Except.mapError_eq_ok_iff {ε ε' α : Type} {x : Except ε α} {f : ε → ε'} {a : α} :
    x.mapError f = .ok a ↔ x = .ok a := by
  cases x <;> simp [Except.mapError]

/-- What is read without a fault is read elsewhere as well. -/
theorem Token.intValue_move {t : Token} {i : Int} (h : t.intValue = .ok i) :
    (t.move σ).intValue = .ok i := by
  unfold intValue at h ⊢
  rw [Except.mapError_eq_ok_iff] at h ⊢
  exact h

theorem Token.bytes_move {t : Token} {bytes : List UInt8} (h : t.bytes = .ok bytes) :
    (t.move σ).bytes = .ok bytes := by
  unfold Token.bytes at h ⊢
  rw [Except.mapError_eq_ok_iff] at h ⊢
  exact h

theorem Token.mapM_bytes_move {ts : List Token} {parts : List (List UInt8)}
    (h : ts.mapM Token.bytes = .ok parts) : (ts.map (move σ)).mapM Token.bytes = .ok parts := by
  induction ts generalizing parts with
  | nil => exact h
  | cons t ts ih =>
    rw [List.mapM_cons] at h
    rw [List.map_cons, List.mapM_cons]
    cases ht : t.bytes with
    | error e =>
      rw [ht] at h
      cases h
    | ok first =>
      rw [ht] at h
      cases hts : ts.mapM Token.bytes with
      | error e =>
        rw [hts] at h
        cases h
      | ok others =>
        rw [hts] at h
        rw [bytes_move ht, ih hts]
        exact h

theorem ByteString.move_ofTokens (hσ : σ .start = .start) {ts : List Token} {b : ByteString}
    (h : ofTokens ts = .ok b) : ofTokens (ts.map (Token.move σ)) = .ok (b.move σ) := by
  obtain ⟨parts, hparts, rfl⟩ := Except.map_eq_ok_iff.mp h
  refine Except.map_eq_ok_iff.mpr ⟨parts, Token.mapM_bytes_move hparts, ?_⟩
  cases ts <;> simp [move, Token.move, hσ]

theorem Dialect.ofBytes_move {b : ByteString} {d : Dialect} (h : ofBytes b = .ok d) :
    ofBytes (b.move σ) = .ok d := by
  have hbytes : (b.move σ).bytes = b.bytes := rfl
  simp only [ofBytes, hbytes] at h ⊢
  split at h
  · exact h
  · cases h

theorem Constant.move_ofInt {sign : Sign} {t : Token} {c : Constant} (h : ofInt sign t = .ok c) :
    ofInt sign (t.move σ) = .ok (c.move σ) := by
  obtain ⟨i, hi, rfl⟩ := Except.map_eq_ok_iff.mp h
  exact Except.map_eq_ok_iff.mpr ⟨i, Token.intValue_move hi, rfl⟩

/-! ## Rules -/

variable (σ) in
/-- What an action yields moves along with the parts, by `f`. -/
def Action.Moves {β : Type} (f : β → β) : (ss : List Symbol) → Action β ss → Action β ss → Prop
  | [], result, moved => ∀ v, result = .ok v → moved = .ok (f v)
  | s :: ss, action, moved => ∀ v : s.Value, Action.Moves f ss (action v) (moved (s.move σ v))

variable (σ) in
/-- What a rule stands for moves along with its parts. -/
abbrev Rule.Moves {n : Nonterminal} (r : Rule n) : Prop :=
  Action.Moves σ (n.move σ) r.symbols r.action r.action

theorem Rule.moves_of_mem (hσ : σ .start = .start) {n : Nonterminal} :
    ∀ r ∈ rules n, r.Moves σ := by
  have hint {α : Type} {f : Int → α} (t : Token) (a : α) (h : t.intValue.map f = .ok a) :
      (t.move σ).intValue.map f = .ok a := by
    obtain ⟨i, hi, rfl⟩ := Except.map_eq_ok_iff.mp h
    exact Except.map_eq_ok_iff.mpr ⟨i, Token.intValue_move hi, rfl⟩
  cases n with
  | schemaFile =>
    refine List.forall_iff_forall_mem.mp ⟨?_, ?_, ?_, ?_⟩
    · exact fun d items f hf => SchemaFile.move_ofItems hf
    · exact fun d f hf => @SchemaFile.move_ofItems _ d [] f hf
    · exact fun items f hf => SchemaFile.move_ofItems hf
    · exact fun f hf => @SchemaFile.move_ofItems _ _ [] f hf
  | dialectStmt =>
    refine List.forall_iff_forall_mem.mp ?_
    exact fun _ _ b _ d hd => Dialect.ofBytes_move hd
  | strings =>
    refine List.forall_iff_forall_mem.mp ?_
    exact fun ts b hb => ByteString.move_ofTokens hσ hb
  | fieldNumber => exact List.forall_iff_forall_mem.mp hint
  | signedInt => exact List.forall_iff_forall_mem.mp ⟨fun _ => hint, fun _ _ => Token.intValue_move⟩
  | number =>
    refine List.forall_iff_forall_mem.mp ⟨?_, ?_, ?_, ?_, ?_⟩
    · exact fun _ _ _ => Constant.move_ofInt
    · exact fun _ _ => Constant.move_ofInt
    · exact fun _ _ _ hc => Except.ok.inj hc ▸ rfl
    · exact fun _ _ hc => Except.ok.inj hc ▸ rfl
    · exact fun _ _ _ hc => Except.ok.inj hc ▸ rfl
  | topItem | messageItem | enumItem | serviceItem =>
    simp [rules, Rule.Moves, Action.Moves, Symbol.move, Nonterminal.move, TopItem.move,
      MessageItem.move, EnumItem.move, ServiceItem.move]
  | importStmt | extendDecl =>
    simp [rules, Rule.Moves, Action.Moves, Symbol.move, Nonterminal.move, ImportDecl.move,
      ExtendDecl.move]
  | _ => simp [rules, Rule.Moves, Action.Moves, Symbol.move, Nonterminal.move]

/-! ## Trees -/

mutual

/-- A tree whose tokens stand elsewhere. -/
def Tree.move (σ : Position → Position) {s : Symbol} : Tree s → Tree s
  | .leaf token => .leaf (token.move σ)
  | .node r children => .node r (children.move σ)

/-- Trees whose tokens stand elsewhere. -/
def Forest.move (σ : Position → Position) {ss : List Symbol} : Forest ss → Forest ss
  | .nil => .nil
  | .cons first others => .cons (first.move σ) (others.move σ)

end

theorem Tree.tokens_leaf (token : Token) : (Tree.leaf token).tokens = [token] := by rw [Tree.tokens]

theorem Tree.states_leaf (i : Nat) (token : Token) :
    (Tree.leaf token).states i =
      [(Exploration.complete.target? i (.terminal token.terminal)).getD 0] := by
  rw [Tree.states]

theorem Tree.value_leaf (token : Token) : (Tree.leaf token).value = .ok token := by rw [Tree.value]

mutual

theorem Tree.tokens_move {s : Symbol} :
    (tree : Tree s) → (tree.move σ).tokens = tree.tokens.map (Token.move σ)
  | .leaf token => by
    rw [Tree.move, Tree.tokens_leaf, List.map_singleton]
    exact Tree.tokens_leaf (token.move σ)
  | .node _ children => by rw [Tree.move, Tree.tokens, Tree.tokens, children.tokens_move]

theorem Forest.tokens_move {ss : List Symbol} :
    (forest : Forest ss) → (forest.move σ).tokens = forest.tokens.map (Token.move σ)
  | .nil => by rw [Forest.move, Forest.tokens, List.map_nil]
  | .cons first others => by
    rw [Forest.move, Forest.tokens, Forest.tokens, List.map_append, first.tokens_move,
      others.tokens_move]

end

mutual

theorem Tree.states_move (i : Nat) {s : Symbol} :
    (tree : Tree s) → (tree.move σ).states i = tree.states i
  | .leaf token => by
    rw [Tree.move, Tree.states_leaf]
    exact Tree.states_leaf i (token.move σ)
  | .node _ children => by rw [Tree.move, Tree.states, Tree.states, children.states_move]

theorem Forest.states_move (i : Nat) {ss : List Symbol} :
    (forest : Forest ss) → (forest.move σ).states i = forest.states i
  | .nil => by rw [Forest.move]
  | .cons first others => by
    rw [Forest.move, Forest.states, Forest.states, first.states_move, others.states_move]

end

mutual

/-- What a tree stands for moves along with its tokens. -/
theorem Tree.value_move (hσ : σ .start = .start) {s : Symbol} :
    (tree : Tree s) → ∀ v, tree.value = .ok v → (tree.move σ).value = .ok (s.move σ v)
  | .leaf token, v, hv => by
    obtain rfl := Except.ok.inj ((Tree.value_leaf token).symm.trans hv)
    rw [Tree.move]
    exact Tree.value_leaf (token.move σ)
  | .node r children, v, hv => by
    rw [Tree.value] at hv
    rw [Tree.move, Tree.value]
    exact Forest.feed_move hσ children (Rule.moves_of_mem hσ _ (List.getElem_mem _)) v hv

theorem Forest.feed_move (hσ : σ .start = .start) {ss : List Symbol} {β : Type} {f : β → β} :
    (forest : Forest ss) → {action moved : Action β ss} → Action.Moves σ f ss action moved →
      ∀ v, forest.feed action = .ok v → (forest.move σ).feed moved = .ok (f v)
  | .nil, _, _, hmoves, v, hv => by
    rw [Forest.feed] at hv
    rw [Forest.move, Forest.feed]
    exact hmoves v hv
  | .cons first others, action, moved, hmoves, v, hv => by
    rw [Forest.feed] at hv
    rw [Forest.move, Forest.feed]
    cases hfirst : first.value with
    | error e =>
      rw [hfirst] at hv
      cases hv
    | ok w =>
      rw [hfirst] at hv
      rw [Tree.value_move hσ first w hfirst]
      exact Forest.feed_move hσ others (hmoves w) v hv

end

/-! ## Fields -/

theorem FieldDecl.problem?_move (dialect : Dialect) (f : FieldDecl) :
    (f.move σ).problem? dialect = f.problem? dialect := by
  obtain ⟨name, number, shape, label, options, oneof, position⟩ := f
  cases shape <;> rfl

mutual

theorem MessageDecl.forall_move {P : FieldDecl → Prop} (hP : ∀ f : FieldDecl, P f → P (f.move σ)) :
    (m : MessageDecl) → m.Forall (MessageDecl.ForallFields P) →
      (m.move σ).Forall (MessageDecl.ForallFields P)
  | ⟨_, _, messages, _, _, _, _, _, _, _, _⟩, h => by
    rw [MessageDecl.Forall] at h
    rw [MessageDecl.move, MessageDecl.Forall]
    refine ⟨⟨?_, ?_⟩, MessageDecl.forallIn_move hP messages h.2⟩
    · exact List.forall_mem_map.mpr fun f hf => hP f (h.1.1 f hf)
    · exact List.forall_mem_map.mpr fun e he =>
        List.forall_mem_map.mpr fun f hf => hP f (h.1.2 e he f hf)

theorem MessageDecl.forallIn_move {P : FieldDecl → Prop}
    (hP : ∀ f : FieldDecl, P f → P (f.move σ)) :
    (ms : List MessageDecl) → MessageDecl.ForallIn (MessageDecl.ForallFields P) ms →
      MessageDecl.ForallIn (MessageDecl.ForallFields P) (MessageDecl.moveAll σ ms)
  | [], h => by
    rw [MessageDecl.moveAll]
    exact h
  | m :: ms, h => by
    rw [MessageDecl.ForallIn] at h
    rw [MessageDecl.moveAll, MessageDecl.ForallIn]
    exact ⟨MessageDecl.forall_move hP m h.1, MessageDecl.forallIn_move hP ms h.2⟩

end

theorem SchemaFile.forallFields_move {P : FieldDecl → Prop}
    (hP : ∀ f : FieldDecl, P f → P (f.move σ)) {f : SchemaFile} (h : f.ForallFields P) :
    (f.move σ).ForallFields P := by
  refine ⟨?_, List.forall_mem_map.mpr fun e he =>
    List.forall_mem_map.mpr fun x hx => hP x (h.2 e he x hx)⟩
  have hmessages := MessageDecl.forallIn_move hP f.messages h.1
  rwa [MessageDecl.moveAll_eq_map] at hmessages

/-- Whether a file keeps the rules of its dialect does not depend on places. -/
theorem SchemaFile.fault?_move {f : SchemaFile} (h : f.fault? = none) :
    (f.move σ).fault? = none := by
  rw [fault?_eq_none_iff] at h ⊢
  exact forallFields_move (fun x hx => (FieldDecl.problem?_move _ x).trans hx) h

end

end ProtoSchema
