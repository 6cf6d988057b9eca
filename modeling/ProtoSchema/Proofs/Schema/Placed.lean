import ProtoSchema.Proofs.Schema.Accepted
import ProtoSchema.Proofs.Schema.Worded
import ProtoSchema.Proofs.Token.Placed
import ProtoSchema.Schema.Json

/-!
# Places of declarations

Whatever a parsed file declares remembers a place, and there the text has what is declared: the name
of a declaration, the first word of a reference or of the name of an option, the literals of a path,
the digits or the word of a number. Each rule of the grammar keeps this of its parts
(`Rule.places_of_mem`), and so it holds of all that a text declares, at any depth
(`SchemaFile.placed_of_parse`).
-/

namespace ProtoSchema

open Dotted

/-! ## What stands at a place -/

/-- The first word of a name, behind points, signs and parentheses. -/
def firstWord (name : String) : List Char :=
  (name.toList.dropWhile fun c => !Lexeme.isNamePart c).takeWhile Lexeme.isNamePart

/-- At a place of a text there is a name, which is a word. -/
def HasName (text : List Char) (p : Position) (name : String) : Prop :=
  IsWord name ∧ Stands text p name.toList

/-- At a place of a text there is the first word of a name. -/
def HasFirstWord (text : List Char) (p : Position) (name : String) : Prop :=
  firstWord name ∈ Lexeme.names ∧ Stands text p (firstWord name)

/-- String literals with nothing but blanks and comments between them denote their bytes, one after
the other. -/
inductive Literals : List Char → List UInt8 → Prop
  | single {l : List Char} {bytes : List UInt8} (hl : l ∈ Lexeme.strings)
      (hbytes : unescape l = .ok bytes) : Literals l bytes
  | cons {l gap others : List Char} {bytes more : List UInt8} (hl : l ∈ Lexeme.strings)
      (hbytes : unescape l = .ok bytes) (hgap : gap ∈ Lexeme.gaps)
      (hothers : Literals others more) : Literals (l ++ gap ++ others) (bytes ++ more)

/-! ## Declarations -/

/-- A constant is placed where it is written, a number at its digits or its word, without its sign. An
aggregate has no place. -/
inductive Constant.Placed (text : List Char) : Constant → Prop
  | int {p : Position} {l : List Char} {i : Int} (sign : Sign) (hl : l ∈ Lexeme.integers)
      (hvalue : parseInt l = .ok i) (h : Stands text p l) : Placed text ⟨.int (sign.apply i), some p⟩
  | float {p : Position} {l : List Char} (sign : Sign) (hl : l ∈ Lexeme.floats)
      (h : Stands text p l) : Placed text ⟨.float (Decimal.ofNumeral sign.isMinus l), some p⟩
  | infinity {p : Position} (sign : Sign) (h : Stands text p "inf".toList) :
      Placed text ⟨.float (Decimal.infinity sign.isMinus), some p⟩
  | notANumber {p : Position} (h : Stands text p "nan".toList) :
      Placed text ⟨.float Decimal.notANumber, some p⟩
  | ident {p : Position} {name : String} (h : HasFirstWord text p name) :
      Placed text ⟨.ident name, some p⟩
  | string {p : Position} {run : List Char} {bytes : List UInt8} (hrun : Literals run bytes)
      (h : Stands text p run) : Placed text ⟨.string (.ofBytes bytes), some p⟩
  | aggregate {entries : List (String × Value)} : Placed text ⟨.aggregate entries, none⟩

/-- An option is placed at the first word of its name. -/
@[mk_iff]
structure OptionDecl.Placed (text : List Char) (o : OptionDecl) : Prop where
  name : HasFirstWord text o.position o.name
  value : o.value.Placed text

/-- The name of a field as it is written: a group is named by its type. -/
def FieldDecl.writtenName (f : FieldDecl) : String :=
  match f.shape with
  | .group type => type
  | .named .. | .map .. => f.name

/-- The type reference whose place a field keeps: of a map it is that of the values. -/
def FieldShape.reference : FieldShape → String
  | .named type _ | .group type => type
  | .map _ value _ => value

/-- A field is placed at its name, and its type at the first word of the reference. -/
structure FieldDecl.Placed (text : List Char) (f : FieldDecl) : Prop where
  name : HasName text f.position f.writtenName
  type : ∀ p ∈ f.shape.position?, HasFirstWord text p f.shape.reference
  options : ∀ o ∈ f.options, o.Placed text

/-- A value of an enum is placed at its name. -/
@[mk_iff]
structure EnumValueDecl.Placed (text : List Char) (v : EnumValueDecl) : Prop where
  name : HasName text v.position v.name
  options : ∀ o ∈ v.options, o.Placed text

/-- An enum is placed at its name. -/
structure EnumDecl.Placed (text : List Char) (e : EnumDecl) : Prop where
  name : HasName text e.position e.name
  values : ∀ v ∈ e.values, v.Placed text
  options : ∀ o ∈ e.options, o.Placed text

/-- An extend block is placed at the first word of what it extends. -/
@[mk_iff]
structure ExtendDecl.Placed (text : List Char) (e : ExtendDecl) : Prop where
  extendee : HasFirstWord text e.position e.extendee
  fields : ∀ f ∈ e.fields, f.Placed text

/-- A message is placed at its name. -/
structure MessageDecl.Placed (text : List Char) (m : MessageDecl) : Prop where
  name : HasName text m.position m.name
  fields : ∀ f ∈ m.fields, f.Placed text
  enums : ∀ e ∈ m.enums, e.Placed text
  extendBlocks : ∀ e ∈ m.extendBlocks, e.Placed text
  options : ∀ o ∈ m.options, o.Placed text

/-- A method is placed at its name. -/
@[mk_iff]
structure MethodDecl.Placed (text : List Char) (m : MethodDecl) : Prop where
  name : HasName text m.position m.name
  options : ∀ o ∈ m.options, o.Placed text

/-- A service is placed at its name. -/
structure ServiceDecl.Placed (text : List Char) (s : ServiceDecl) : Prop where
  name : HasName text s.position s.name
  methods : ∀ m ∈ s.methods, m.Placed text
  options : ∀ o ∈ s.options, o.Placed text

/-- The keyword in front of the path of an import. -/
def ImportDecl.opening (i : ImportDecl) : List Char :=
  match i.modifier with
  | none => "import".toList
  | some modifier => modifier.name.toList

/-- An import is placed at the first of the literals behind its keywords, which make up its path. -/
def ImportDecl.Placed (text : List Char) (i : ImportDecl) : Prop :=
  ∃ before gap run rest bytes, text = before ++ i.opening ++ gap ++ run ++ rest ∧
    i.position = .behind (before ++ i.opening ++ gap) ∧ gap ∈ Lexeme.gaps ∧
    Literals run bytes ∧ i.path = .ofBytes bytes

/-- All that a file declares is placed. -/
structure SchemaFile.Placed (text : List Char) (f : SchemaFile) : Prop where
  imports : ∀ i ∈ f.imports, i.Placed text
  messages : MessageDecl.ForallIn (MessageDecl.Placed text) f.messages
  enums : ∀ e ∈ f.enums, e.Placed text
  services : ∀ s ∈ f.services, s.Placed text
  extendBlocks : ∀ e ∈ f.extendBlocks, e.Placed text
  options : ∀ o ∈ f.options, o.Placed text

/-! ## First words -/

section FirstWords

variable {name other : String}

theorem firstWord_of_isWord (h : IsWord name) : firstWord name = name.toList := by
  obtain ⟨c, cs, hname, hc, hcs⟩ := h.exists_cons
  have hall : ∀ x ∈ c :: cs, Lexeme.isNamePart x = true :=
    List.forall_mem_cons.mpr ⟨Lexeme.isNamePart_of_isNameStart hc, hcs⟩
  rw [firstWord, hname, List.dropWhile_cons_of_neg (by simpa using hall c List.mem_cons_self),
    List.takeWhile_eq_self_iff.mpr hall]

/-- What does not continue a word may stand in front. -/
theorem firstWord_cons {c : Char} (hc : Lexeme.isNamePart c = false)
    (hname : name.toList = c :: other.toList) : firstWord name = firstWord other := by
  rw [firstWord, hname, List.dropWhile_cons_of_pos (by simp [hc]), firstWord]

/-- What does not continue a word may stand behind one. -/
theorem firstWord_append (rest : List Char) (hword : firstWord name ≠ [])
    (hrest : ∀ c ∈ rest.head?, Lexeme.isNamePart c = false)
    (hother : other.toList = name.toList ++ rest) : firstWord other = firstWord name := by
  have hdropped : name.toList.dropWhile (fun c => !Lexeme.isNamePart c) ≠ [] := by
    intro hnil
    exact hword (by rw [firstWord, hnil, List.takeWhile_nil])
  rw [firstWord, hother, List.dropWhile_append,
    if_neg (by simpa [List.isEmpty_iff] using hdropped), firstWord, List.takeWhile_append]
  split
  · next hlength =>
    have hself := (List.takeWhile_prefix _).eq_of_length hlength
    have hnone : rest.takeWhile Lexeme.isNamePart = [] := by
      cases rest with
      | nil => rfl
      | cons c rest => rw [List.takeWhile_cons_of_neg (by simp [hrest c rfl])]
    rw [hnone, List.append_nil, hself]
  · rfl

end FirstWords

/-! ## Identifiers -/

section Idents

variable {text : List Char} {i : Ident}

/-- A token with the lexeme of a name stands where it says, with its text. -/
theorem Token.hasName_ident {t : Token} (hword : t.lexeme ∈ Lexeme.names)
    (h : Stands text t.position t.lexeme) : HasName text t.ident.position t.ident.text := by
  refine ⟨t.isWord_ident hword, ?_⟩
  rwa [Token.ident, Token.text, String.toList_ofList]

theorem HasName.hasFirstWord {p : Position} {name : String} (h : HasName text p name) :
    HasFirstWord text p name := by
  rw [HasFirstWord, firstWord_of_isWord h.1]
  exact h

theorem HasFirstWord.of_firstWord {p : Position} {name other : String} (h : HasFirstWord text p name)
    (hfirst : firstWord other = firstWord name) : HasFirstWord text p other := by
  rwa [HasFirstWord, hfirst]

theorem HasFirstWord.ne_nil {p : Position} {name : String} (h : HasFirstWord text p name) :
    firstWord name ≠ [] :=
  fun hnil => Terminal.name.nil_notMem_language (hnil ▸ h.1)

/-- Names behind the first one do not change the first word. -/
theorem Ident.hasFirstWord_join (h : HasFirstWord text i.position i.text) (is : List Ident) :
    HasFirstWord text (Ident.join i is).position (Ident.join i is).text := by
  cases is with
  | nil => simpa [join, String.intercalate_singleton] using h
  | cons j is =>
    refine h.of_firstWord (firstWord_append ('.' :: (".".intercalate
      ((j :: is).map Ident.text)).toList) h.ne_nil ?_ ?_)
    · rintro c hc
      obtain rfl := Option.some.inj hc
      rfl
    · simp [join, String.toList_intercalate]

theorem Ident.hasFirstWord_absolute (h : HasFirstWord text i.position i.text) :
    HasFirstWord text i.absolute.position i.absolute.text :=
  h.of_firstWord (firstWord_cons (c := '.') rfl (by simp [absolute]))

theorem Ident.hasFirstWord_absolute_join (h : HasFirstWord text i.position i.text)
    (is : List Ident) : HasFirstWord text (Ident.join i is).absolute.position
      (Ident.join i is).absolute.text :=
  hasFirstWord_absolute (hasFirstWord_join h is)

theorem Ident.hasFirstWord_parenthesised (h : HasFirstWord text i.position i.text) :
    HasFirstWord text i.parenthesised.position i.parenthesised.text := by
  have hclosed : firstWord (i.text ++ ")") = firstWord i.text := by
    refine firstWord_append [')'] h.ne_nil ?_ (by simp)
    rintro c hc
    obtain rfl := Option.some.inj hc
    rfl
  have hopened : firstWord i.parenthesised.text = firstWord (i.text ++ ")") :=
    firstWord_cons (c := '(') rfl (by simp [parenthesised])
  exact h.of_firstWord (hopened.trans hclosed)

end Idents

/-! ## Literals -/

/-- The bytes of literals are those of the first one and then those of the others. -/
theorem ByteString.exists_of_ofTokens_cons {t : Token} {ts : List Token} {b : ByteString}
    (h : ofTokens (t :: ts) = .ok b) :
    ∃ bytes others, unescape t.lexeme = .ok bytes ∧ ofTokens ts = .ok others ∧
      b = ⟨bytes ++ others.bytes, t.position⟩ := by
  cases hbytes : unescape t.lexeme with
  | error e =>
    simp [ofTokens, List.mapM_cons, Token.bytes, hbytes, Except.mapError, Except.map, bind,
      Except.bind] at h
  | ok bytes =>
    cases hparts : ts.mapM Token.bytes with
    | error e =>
      simp [ofTokens, List.mapM_cons, Token.bytes, hbytes, hparts, Except.mapError, Except.map,
        bind, Except.bind] at h
    | ok parts =>
      refine ⟨bytes, ⟨parts.flatten, (ts.head?.map Token.position).getD .start⟩, rfl, ?_, ?_⟩
      · rw [ofTokens, hparts]
        rfl
      · simp only [ofTokens, List.mapM_cons, Token.bytes, hbytes, hparts, Except.mapError,
          Except.map, bind, Except.bind, pure, Except.pure, Except.ok.injEq] at h
        simp [← h]

/-- Tokens of string literals that are laid out one behind the other are such literals, with the
bytes of the tokens, and the first of them is where they start. -/
theorem Literals.exists_of_layout {p : Position} {text : List Char} {ts : List Token}
    (h : Layout p text ts) {b : ByteString} (hne : ts ≠ [])
    (hstrings : ∀ t ∈ ts, t.lexeme ∈ Lexeme.strings) (hb : ByteString.ofTokens ts = .ok b) :
    ∃ gap run rest, text = gap ++ run ++ rest ∧ gap ∈ Lexeme.gaps ∧ Literals run b.bytes ∧
      b.position = p.advance gap := by
  induction h generalizing b with
  | nil => exact absurd rfl hne
  | @cons p gap behind t ts hgap hplace hlexeme hrest ih =>
    obtain ⟨bytes, others, hbytes, hothers, rfl⟩ := ByteString.exists_of_ofTokens_cons hb
    rw [List.forall_mem_cons] at hstrings
    by_cases hlast : ts = []
    · subst hlast
      obtain rfl : ⟨[], .start⟩ = others := Except.ok.inj hothers
      refine ⟨gap, t.lexeme, behind, rfl, hgap, ?_, hplace⟩
      rw [List.append_nil]
      exact .single hstrings.1 hbytes
    · obtain ⟨gap', run, rest, rfl, hgap', hrun, -⟩ := ih hlast hstrings.2 hothers
      exact ⟨gap, t.lexeme ++ gap' ++ run, rest, by simp, hgap,
        .cons hstrings.1 hbytes hgap' hrun, hplace⟩

/-! ## Items -/

/-- A group is placed where its name is written, and so is all that it declares. -/
@[mk_iff]
structure GroupDecl.Placed (text : List Char) (g : GroupDecl) : Prop where
  field : g.field.Placed text
  body : g.body.Forall (MessageDecl.Placed text)

/-- The members of a oneof are placed. -/
def OneofDecl.Placed (text : List Char) (o : OneofDecl) : Prop := ∀ f ∈ o.fields, f.Placed text

/-- What an item of a message declares is placed. -/
@[mk_iff]
structure MessageItem.Placed (text : List Char) (i : MessageItem) : Prop where
  fields : ∀ f ∈ i.fields, f.Placed text
  message : ∀ m ∈ i.message?, m.Forall (MessageDecl.Placed text)
  enum : ∀ e ∈ i.enum?, e.Placed text
  extend : ∀ e ∈ i.extend?, e.Placed text
  option : ∀ o ∈ i.option?, o.Placed text

/-- What an item of an enum declares is placed. -/
@[mk_iff]
structure EnumItem.Placed (text : List Char) (i : EnumItem) : Prop where
  value : ∀ v ∈ i.value?, v.Placed text
  option : ∀ o ∈ i.option?, o.Placed text

/-- What an item of a service declares is placed. -/
@[mk_iff]
structure ServiceItem.Placed (text : List Char) (i : ServiceItem) : Prop where
  method : ∀ m ∈ i.method?, m.Placed text
  option : ∀ o ∈ i.option?, o.Placed text

/-- What an item of a file declares is placed. -/
@[mk_iff]
structure TopItem.Placed (text : List Char) (i : TopItem) : Prop where
  dependency : ∀ d ∈ i.dependency?, d.Placed text
  message : ∀ m ∈ i.message?, m.Forall (MessageDecl.Placed text)
  enum : ∀ e ∈ i.enum?, e.Placed text
  service : ∀ s ∈ i.service?, s.Placed text
  extend : ∀ e ∈ i.extend?, e.Placed text
  option : ∀ o ∈ i.option?, o.Placed text

/-! ## Assembly -/

section Assembly

variable {text : List Char}

/-- What the items that declare something make of a body is placed if the items are. -/
theorem placed_filterMap {ι δ : Type} {P : ι → Prop} {Q : δ → Prop} {part? : ι → Option δ}
    {items : List ι} (hitems : ∀ i ∈ items, P i) (hpart : ∀ i, P i → ∀ d ∈ part? i, Q d) :
    ∀ d ∈ items.filterMap part?, Q d := by
  intro d hd
  obtain ⟨i, hi, hd⟩ := List.mem_filterMap.mp hd
  exact hpart i (hitems i hi) d hd

theorem FieldDecl.placed_plain {label : Option Label} {type name : Ident} {number : Nat}
    {options : List OptionDecl} (htype : HasFirstWord text type.position type.text)
    (hname : HasName text name.position name.text) (hoptions : ∀ o ∈ options, o.Placed text) :
    (FieldDecl.plain label type name number options).Placed text :=
  ⟨hname, fun _ hp => Option.some.inj hp ▸ htype, hoptions⟩

theorem FieldDecl.placed_ofMap {key value name : Ident} {number : Nat} {options : List OptionDecl}
    (hvalue : HasFirstWord text value.position value.text)
    (hname : HasName text name.position name.text) (hoptions : ∀ o ∈ options, o.Placed text) :
    (FieldDecl.ofMap key value name number options).Placed text :=
  ⟨hname, fun _ hp => Option.some.inj hp ▸ hvalue, hoptions⟩

theorem OneofDecl.placed_ofFields {name : Ident} {fs : List FieldDecl}
    (h : ∀ f ∈ fs, f.Placed text) : (OneofDecl.ofFields name fs).Placed text := by
  intro f hf
  obtain ⟨g, hg, rfl⟩ := List.mem_map.mp hf
  exact ⟨(h g hg).name, (h g hg).type, (h g hg).options⟩

theorem MessageDecl.placed_ofItems {name : Ident} {items : List MessageItem}
    (hname : HasName text name.position name.text) (hitems : ∀ i ∈ items, i.Placed text) :
    (MessageDecl.ofItems name items).Forall (MessageDecl.Placed text) := by
  rw [MessageDecl.ofItems, MessageDecl.Forall]
  refine ⟨⟨hname, ?_, placed_filterMap hitems fun _ hi => hi.enum,
    placed_filterMap hitems fun _ hi => hi.extend, placed_filterMap hitems fun _ hi => hi.option⟩,
    MessageDecl.forallIn_iff.mpr (placed_filterMap hitems fun _ hi => hi.message)⟩
  intro f hf
  obtain ⟨i, hi, hf⟩ := List.mem_flatMap.mp hf
  exact (hitems i hi).fields f hf

theorem GroupDecl.placed_ofItems {label : Label} {name : Ident} {number : Nat}
    {options : List OptionDecl} {items : List MessageItem}
    (hname : HasName text name.position name.text) (hoptions : ∀ o ∈ options, o.Placed text)
    (hitems : ∀ i ∈ items, i.Placed text) :
    (GroupDecl.ofItems label name number options items).Placed text :=
  ⟨⟨hname, nofun, hoptions⟩, MessageDecl.placed_ofItems hname hitems⟩

theorem EnumDecl.placed_ofItems {name : Ident} {items : List EnumItem}
    (hname : HasName text name.position name.text) (hitems : ∀ i ∈ items, i.Placed text) :
    (EnumDecl.ofItems name items).Placed text :=
  ⟨hname, placed_filterMap hitems fun _ hi => hi.value,
    placed_filterMap hitems fun _ hi => hi.option⟩

theorem ServiceDecl.placed_ofItems {name : Ident} {items : List ServiceItem}
    (hname : HasName text name.position name.text) (hitems : ∀ i ∈ items, i.Placed text) :
    (ServiceDecl.ofItems name items).Placed text :=
  ⟨hname, placed_filterMap hitems fun _ hi => hi.method,
    placed_filterMap hitems fun _ hi => hi.option⟩

theorem SchemaFile.placed_ofItems {dialect : Dialect} {items : List TopItem} {f : SchemaFile}
    (hitems : ∀ i ∈ items, i.Placed text) (h : SchemaFile.ofItems dialect items = .ok f) :
    f.Placed text := by
  unfold SchemaFile.ofItems at h
  split at h
  · cases h
  · obtain rfl := Except.ok.inj h
    exact ⟨placed_filterMap hitems fun _ hi => hi.dependency,
      MessageDecl.forallIn_iff.mpr (placed_filterMap hitems fun _ hi => hi.message),
      placed_filterMap hitems fun _ hi => hi.enum, placed_filterMap hitems fun _ hi => hi.service,
      placed_filterMap hitems fun _ hi => hi.extend, placed_filterMap hitems fun _ hi => hi.option⟩

/-! ### Constants -/

theorem Constant.placed_ofInt {sign : Sign} {t : Token} {c : Constant}
    (hint : t.lexeme ∈ Lexeme.integers) (hstands : Stands text t.position t.lexeme)
    (h : Constant.ofInt sign t = .ok c) : c.Placed text := by
  cases hvalue : parseInt t.lexeme with
  | error e =>
    rw [Constant.ofInt, Token.intValue, hvalue] at h
    cases h
  | ok i =>
    rw [Constant.ofInt, Token.intValue, hvalue] at h
    obtain rfl := Except.ok.inj h
    exact .int sign hint hvalue hstands

theorem Constant.placed_ofSignedWord (sign : Sign) {t : Token} (hword : t.lexeme ∈ Lexeme.names)
    (hstands : Stands text t.position t.lexeme) : (Constant.ofSignedWord sign t).Placed text := by
  have htext : t.text.toList = t.lexeme := by rw [Token.text, String.toList_ofList]
  unfold Constant.ofSignedWord
  simp only
  split
  · next hinf => exact .infinity sign (by rwa [← hinf, htext])
  · split
    · next hnan => exact .notANumber (by rwa [← hnan, htext])
    · have hnames : HasFirstWord text t.position t.text := (t.hasName_ident hword hstands).hasFirstWord
      have hsign : ∃ c, Lexeme.isNamePart c = false ∧
          (sign.text ++ t.text).toList = c :: t.text.toList := by
        cases sign
        · exact ⟨'+', rfl, by simp [Sign.text]⟩
        · exact ⟨'-', rfl, by simp [Sign.text]⟩
      obtain ⟨c, hc, hlist⟩ := hsign
      exact .ident (hnames.of_firstWord (firstWord_cons hc hlist))

end Assembly

/-! ## Rules -/

/-- Whatever a nonterminal stands for is placed. -/
def Nonterminal.Placed (text : List Char) : (n : Nonterminal) → n.Value → Prop
  | .name | .enumValueName => fun i => HasName text i.position i.text
  | .fullIdent | .optionName | .optionNamePart | .extensionName =>
    fun i => HasFirstWord text i.position i.text
  | .importStmt => ImportDecl.Placed text
  | .number | .constant | .aggregate => Constant.Placed text
  | .optionStmt | .fieldOption => OptionDecl.Placed text
  | .fieldOptions | .moreFieldOptions | .rpcBody | .rpcItems => fun os => ∀ o ∈ os, o.Placed text
  | .fieldDecl | .oneofField | .mapFieldDecl => FieldDecl.Placed text
  | .oneofItem | .oneofItems | .extendItem | .extendItems => fun fs => ∀ f ∈ fs, f.Placed text
  | .oneofDecl => OneofDecl.Placed text
  | .groupDecl => GroupDecl.Placed text
  | .extendDecl => ExtendDecl.Placed text
  | .enumValue => EnumValueDecl.Placed text
  | .enumItem => EnumItem.Placed text
  | .enumItems => fun is => ∀ i ∈ is, i.Placed text
  | .enumDecl => EnumDecl.Placed text
  | .rpcDecl => MethodDecl.Placed text
  | .serviceItem => ServiceItem.Placed text
  | .serviceItems => fun is => ∀ i ∈ is, i.Placed text
  | .serviceDecl => ServiceDecl.Placed text
  | .messageDecl => fun m => m.Forall (MessageDecl.Placed text)
  | .messageItem => MessageItem.Placed text
  | .messageItems => fun is => ∀ i ∈ is, i.Placed text
  | .topItem => TopItem.Placed text
  | .topItems => fun is => ∀ i ∈ is, i.Placed text
  | .schemaFile => SchemaFile.Placed text
  | _ => fun _ => True

/-- Whatever a nonterminal stands for is placed, but literals, and the keyword in front of some of
them, are told by the tokens that they are read from. -/
def Nonterminal.Places (text : List Char) : (n : Nonterminal) → List Token → n.Value → Prop
  | .stringRun =>
    fun read ts => ts = read ∧ read ≠ [] ∧ ∀ t ∈ read, t.lexeme ∈ Lexeme.strings
  | .strings => fun read b =>
    read ≠ [] ∧ (∀ t ∈ read, t.lexeme ∈ Lexeme.strings) ∧ ByteString.ofTokens read = .ok b
  | .importModifier => fun read m => ∃ t, read = [t] ∧ t.lexeme = m.name.toList
  | n => fun _ => n.Placed text

theorem Nonterminal.Places.placed {text : List Char} (n : Nonterminal) (read : List Token)
    (v : n.Value) (h : n.Places text read v) : n.Placed text v := by
  cases n with
  | stringRun | strings | importModifier => trivial
  | _ => exact h

/-- A token of a terminal stands where it says. -/
def Token.PlacedAs (text : List Char) (k : Terminal) (t : Token) : Prop :=
  t.lexeme ∈ k.language ∧ Stands text t.position t.lexeme

section Rules

variable {text : List Char} {tokens : List Token} {n : Nonterminal}

theorem Token.PlacedAs.hasName {t : Token} (h : t.PlacedAs text .name) :
    HasName text t.ident.position t.ident.text :=
  t.hasName_ident h.1 h.2

theorem Token.PlacedAs.hasName_keyword {t : Token} {k : Keyword}
    (h : t.PlacedAs text (.keyword k)) : HasName text t.ident.position t.ident.text :=
  t.hasName_ident (Set.mem_singleton_iff.mp h.1 ▸ k.spelling_mem_names) h.2

/-- A rule makes placed declarations of placed parts, whatever tokens these are read from. -/
abbrev Rule.Settles (text : List Char) {n : Nonterminal} (r : Rule n) : Prop :=
  Action.Yields (Token.PlacedAs text) (Nonterminal.Placed text) (n.Placed text) r.symbols r.action

theorem MessageItem.settles_of_mem : ∀ r ∈ rules .messageItem, r.Settles text := by
  simp [rules, Rule.Settles, Action.Yields, Symbol.Satisfies, Nonterminal.Placed,
    MessageItem.placed_iff, MessageItem.fields, MessageItem.message?, MessageItem.enum?,
    MessageItem.extend?, MessageItem.option?, GroupDecl.placed_iff, OneofDecl.Placed]

theorem TopItem.settles_of_mem : ∀ r ∈ rules .topItem, r.Settles text := by
  simp [rules, Rule.Settles, Action.Yields, Symbol.Satisfies, Nonterminal.Placed,
    TopItem.placed_iff, TopItem.dependency?, TopItem.message?, TopItem.enum?, TopItem.service?,
    TopItem.extend?, TopItem.option?]

/-- All rules do so but those of literals and of what is placed by literals. -/
theorem Rule.settles_of_mem (himport : n ≠ .importStmt) (hconstant : n ≠ .constant) :
    ∀ r ∈ rules n, r.Settles text := by
  cases n with
  | importStmt => exact absurd rfl himport
  | constant => exact absurd rfl hconstant
  | messageItem => exact MessageItem.settles_of_mem
  | topItem => exact TopItem.settles_of_mem
  | name =>
    exact List.forall_iff_forall_mem.mp fun t ht i hi => Except.ok.inj hi ▸ ht.hasName
  | enumValueName =>
    refine List.forall_iff_forall_mem.mp ⟨?_, ?_, ?_⟩
    · exact fun t ht i hi => Except.ok.inj hi ▸ ht.hasName
    · exact fun t ht i hi => Except.ok.inj hi ▸ ht.hasName_keyword
    · exact fun t ht i hi => Except.ok.inj hi ▸ ht.hasName_keyword
  | number =>
    refine List.forall_iff_forall_mem.mp ⟨?_, ?_, ?_, ?_, ?_⟩
    · exact fun s _ t ht c hc => Constant.placed_ofInt ht.1 ht.2 hc
    · exact fun t ht c hc => Constant.placed_ofInt ht.1 ht.2 hc
    · exact fun s _ t ht c hc => Except.ok.inj hc ▸ .float s ht.1 ht.2
    · exact fun t ht c hc => Except.ok.inj hc ▸ .float .plus ht.1 ht.2
    · exact fun s _ t ht c hc => Except.ok.inj hc ▸ Constant.placed_ofSignedWord s ht.1 ht.2
  | aggregate =>
    refine List.forall_iff_forall_mem.mp ⟨?_, ?_⟩
    · exact fun _ _ _ _ _ _ c hc => Except.ok.inj hc ▸ .aggregate
    · exact fun _ _ _ _ c hc => Except.ok.inj hc ▸ .aggregate
  | fullIdent | optionName | optionNamePart | extensionName =>
    simp +contextual [rules, Rule.Settles, Action.Yields, Symbol.Satisfies, Nonterminal.Placed,
      Ident.hasFirstWord_join, Ident.hasFirstWord_absolute, Ident.hasFirstWord_parenthesised,
      Ident.hasFirstWord_absolute_join, HasName.hasFirstWord]
  | fieldDecl | oneofField | oneofItem | oneofItems | mapFieldDecl | groupDecl | oneofDecl
  | messageDecl | enumDecl | serviceDecl =>
    simp +contextual [rules, Rule.Settles, Action.Yields, Symbol.Satisfies, Nonterminal.Placed,
      FieldDecl.placed_plain, FieldDecl.placed_ofMap, GroupDecl.placed_ofItems,
      OneofDecl.placed_ofFields, MessageDecl.placed_ofItems, EnumDecl.placed_ofItems,
      ServiceDecl.placed_ofItems, or_imp, forall_and]
  | extendItem | extendItems | extendDecl =>
    simp +contextual [rules, Rule.Settles, Action.Yields, Symbol.Satisfies, Nonterminal.Placed,
      ExtendDecl.placed_iff, or_imp, forall_and]
  | optionStmt | fieldOption | fieldOptions | moreFieldOptions | rpcBody | rpcItems =>
    simp +contextual [rules, Rule.Settles, Action.Yields, Symbol.Satisfies, Nonterminal.Placed,
      OptionDecl.placed_iff, OptionDecl.ofIdent, or_imp, forall_and]
  | enumValue | enumItem | rpcDecl | serviceItem =>
    simp +contextual [rules, Rule.Settles, Action.Yields, Symbol.Satisfies, Nonterminal.Placed,
      EnumValueDecl.placed_iff, EnumValueDecl.ofIdent, EnumItem.placed_iff, EnumItem.value?,
      EnumItem.option?, MethodDecl.placed_iff, MethodDecl.ofEnds, ServiceItem.placed_iff,
      ServiceItem.method?, ServiceItem.option?]
  | messageItems | enumItems | serviceItems | topItems =>
    simp +contextual [rules, Rule.Settles, Action.Yields, Symbol.Satisfies, Nonterminal.Placed,
      or_imp, forall_and]
  | schemaFile =>
    refine List.forall_iff_forall_mem.mp ⟨?_, ?_, ?_, ?_⟩
    · exact fun d _ items hitems f hf => SchemaFile.placed_ofItems hitems hf
    · exact fun d _ f hf => SchemaFile.placed_ofItems (List.forall_mem_nil _) hf
    · exact fun items hitems f hf => SchemaFile.placed_ofItems hitems hf
    · exact fun f hf => SchemaFile.placed_ofItems (List.forall_mem_nil _) hf
  -- of all other parts of a file nothing is kept
  | _ => exact fun r _ => Action.yields_of_all (fun _ => trivial) r.symbols r.action

/-! ### Rules with literals -/

/-- Literals that are read behind a keyword are laid out behind it. -/
theorem ImportDecl.placed_of_infix {t : Token} {read : List Token} {i : ImportDecl} {b : ByteString}
    (hlayout : Layout .start text tokens) (hwithin : t :: read <:+: tokens)
    (hopening : t.lexeme = i.opening) (hne : read ≠ [])
    (hstrings : ∀ t ∈ read, t.lexeme ∈ Lexeme.strings) (hb : ByteString.ofTokens read = .ok b)
    (hpath : i.path = .ofBytes b.bytes) (hposition : i.position = b.position) :
    i.Placed text := by
  obtain ⟨before, l, rest, rfl, hl⟩ := hlayout.exists_infix hwithin
  cases hl with
  | @cons _ gap behind _ _ _ hplace _ hread =>
    obtain ⟨gap', run, last, rfl, hgap', hrun, hstart⟩ :=
      Literals.exists_of_layout hread hne hstrings hb
    refine ⟨before ++ gap, gap', run, last ++ rest, b.bytes, ?_, ?_, hgap', hrun, hpath⟩
    · rw [← hopening]
      simp
    · rw [hposition, hstart, hplace, hopening]
      simp [Position.advance_behind]

theorem Constant.placed_ofBytes {read : List Token} {b : ByteString}
    (hlayout : Layout .start text tokens) (hwithin : read <:+: tokens) (hne : read ≠ [])
    (hstrings : ∀ t ∈ read, t.lexeme ∈ Lexeme.strings) (hb : ByteString.ofTokens read = .ok b) :
    (Constant.ofBytes b).Placed text := by
  obtain ⟨before, l, rest, rfl, hl⟩ := hlayout.exists_infix hwithin
  obtain ⟨gap, run, last, rfl, -, hrun, hstart⟩ := Literals.exists_of_layout hl hne hstrings hb
  refine .string hrun ⟨before ++ gap, last ++ rest, by simp, ?_⟩
  rw [hstart, Position.advance_behind]

/-- A rule makes placed declarations of placed parts, told by their tokens. -/
abbrev Rule.Places (text : List Char) (tokens : List Token) {n : Nonterminal} (r : Rule n) : Prop :=
  Action.Builds (Token.PlacedAs text) (Nonterminal.Places text) tokens (n.Places text) [] r.symbols
    r.action

theorem Rule.places_of_mem (hlayout : Layout .start text tokens) :
    ∀ r ∈ rules n, r.Places text tokens := by
  cases n with
  | stringRun | strings =>
    simp +contextual [rules, Rule.Places, Action.Builds, Symbol.Spans, Nonterminal.Places,
      Token.PlacedAs, Terminal.language, or_imp, forall_and]
  | importModifier =>
    refine List.forall_iff_forall_mem.mp ⟨?_, ?_⟩
    · exact fun read t ht _ m hm => ⟨t, ht.1, Except.ok.inj hm ▸ ht.2.1⟩
    · exact fun read t ht _ m hm => ⟨t, ht.1, Except.ok.inj hm ▸ ht.2.1⟩
  | importStmt =>
    refine List.forall_iff_forall_mem.mp ⟨?_, ?_⟩
    · rintro _ k ⟨rfl, -⟩ _ m ⟨t, rfl, ht⟩ read b ⟨hne, hstrings, hb⟩ _ last ⟨rfl, -⟩ hwithin i hi
      obtain rfl := Except.ok.inj hi
      refine ImportDecl.placed_of_infix hlayout (.trans ?_ hwithin) ht hne hstrings hb rfl rfl
      exact ⟨[k], [last], by simp⟩
    · rintro _ k ⟨rfl, hk⟩ read b ⟨hne, hstrings, hb⟩ _ last ⟨rfl, -⟩ hwithin i hi
      obtain rfl := Except.ok.inj hi
      refine ImportDecl.placed_of_infix hlayout (.trans ?_ hwithin) hk.1 hne hstrings hb rfl rfl
      exact ⟨[], [last], by simp⟩
  | constant =>
    refine List.forall_iff_forall_mem.mp ⟨?_, ?_, ?_, ?_⟩
    · exact fun _ c hc _ v hv => Except.ok.inj hv ▸ hc
    · exact fun _ i hi _ v hv => Except.ok.inj hv ▸ .ident hi
    · exact fun read b hb hwithin v hv =>
        Except.ok.inj hv ▸ Constant.placed_ofBytes hlayout hwithin hb.1 hb.2.1 hb.2.2
    · exact fun _ c hc _ v hv => Except.ok.inj hv ▸ hc
  | _ =>
    exact fun r hr => (Rule.settles_of_mem (by decide) (by decide) r hr).builds
      Nonterminal.Places.placed tokens []

end Rules

/-- Whatever a text declares, at any depth, remembers the place in the text where it is named or
written. -/
theorem SchemaFile.placed_of_parse {name : Text} {text : List Char} {f : SchemaFile}
    (h : SchemaFile.parse name text = .ok f) : f.Placed text := by
  obtain ⟨tree, file, htree, hvalue, rfl⟩ := exists_tree_of_parse h
  have hlayout := layout_of_derive htree
  have hfile : file.Placed text :=
    Tree.spans_value (fun t ht => ⟨hlayout.mem_language t ht, hlayout.stands t ht⟩)
      (fun _ => Rule.places_of_mem hlayout _ (List.getElem_mem _)) tree List.infix_rfl file hvalue
  exact ⟨hfile.imports, hfile.messages, hfile.enums, hfile.services, hfile.extendBlocks,
    hfile.options⟩

/-! ## An import and a field with an option -/

namespace Sample

/-- The lexemes of a file with an import and with a field of a type outside that has an option. -/
def optionLexemes : List Lexed :=
  [(.keyword .kwImport, ['i', 'm', 'p', 'o', 'r', 't']), (.string, ['"', 'a', '"']),
    (.mark .semicolon, [';']), (.keyword .kwMessage, ['m', 'e', 's', 's', 'a', 'g', 'e']),
    (.name, ['M']), (.mark .lbrace, ['\x7b']),
    (.keyword .kwOptional, ['o', 'p', 't', 'i', 'o', 'n', 'a', 'l']), (.mark .dot, ['.']),
    (.name, ['B']), (.name, ['c']), (.mark .equal, ['=']), (.int, ['1']), (.mark .lbracket, ['[']),
    (.mark .lparen, ['(']), (.name, ['x']), (.mark .rparen, [')']), (.mark .dot, ['.']),
    (.name, ['y']), (.mark .equal, ['=']), (.mark .minus, ['-']), (.int, ['2']),
    (.mark .rbracket, [']']), (.mark .semicolon, [';']), (.mark .rbrace, ['\x7d'])]

/-- The tree of the option, which is named by an extension and a field of it. -/
def optionTree : Tree (.part .fieldOption) :=
  let extension : Tree (.part .optionNamePart) := .node ⟨.optionNamePart, 1⟩
    (.cons (.node ⟨.extensionName, 0⟩ (.cons (leafAt (.mark .lparen) ['('] 47)
      (.cons (typeAt ['x'] 49) (.cons (leafAt (.mark .rparen) [')'] 51) .nil)))) .nil)
  let others : Tree (.part .moreOptionNameParts) := .node ⟨.moreOptionNameParts, 0⟩
    (.cons (leafAt (.mark .dot) ['.'] 53)
      (.cons (.node ⟨.optionNamePart, 0⟩ (.cons (wordAt ['y'] 55) .nil)) .nil))
  let minus : Tree (.part .sign) := .node ⟨.sign, 0⟩ (.cons (leafAt (.mark .minus) ['-'] 59) .nil)
  let number : Tree (.part .number) := .node ⟨.number, 0⟩
    (.cons minus (.cons (leafAt .int ['2'] 61) .nil))
  .node ⟨.fieldOption, 0⟩ (.cons (.node ⟨.optionName, 0⟩ (.cons extension (.cons others .nil)))
    (.cons (leafAt (.mark .equal) ['='] 57)
      (.cons (.node ⟨.constant, 0⟩ (.cons number .nil)) .nil)))

/-- The tree of this file. -/
def optionFileTree : Tree (.nonterminal .schemaFile) :=
  let run : Tree (.part .stringRun) :=
    .node ⟨.stringRun, 0⟩ (.cons (leafAt .string ['"', 'a', '"'] 8) .nil)
  let dependency : Tree (.part .topItem) := .node ⟨.topItem, 0⟩ (.cons (.node ⟨.importStmt, 1⟩
    (.cons (leafAt (.keyword .kwImport) ['i', 'm', 'p', 'o', 'r', 't'] 1)
      (.cons (.node ⟨.strings, 0⟩ (.cons run .nil))
        (.cons (leafAt (.mark .semicolon) [';'] 12) .nil)))) .nil)
  let type : Tree (.part .fullIdent) := .node ⟨.fullIdent, 1⟩
    (.cons (.node ⟨.leadingDot, 0⟩ (.cons (leafAt (.mark .dot) ['.'] 35) .nil))
      (.cons (wordAt ['B'] 37) .nil))
  let options : Tree (.part .fieldOptions) := .node ⟨.fieldOptions, 1⟩
    (.cons (leafAt (.mark .lbracket) ['['] 45) (.cons optionTree
      (.cons (leafAt (.mark .rbracket) [']'] 63) .nil)))
  let field : Tree (.part .fieldDecl) := .node ⟨.fieldDecl, 0⟩ (.cons (optionalAt 26) (.cons type
    (.cons (wordAt ['c'] 39) (.cons (leafAt (.mark .equal) ['='] 41) (.cons (numberAt ['1'] 43)
      (.cons options (.cons (leafAt (.mark .semicolon) [';'] 65) .nil)))))))
  let items : Tree (.part .messageItems) := .node ⟨.messageItems, 0⟩
    (.cons (.node ⟨.messageItem, 0⟩ (.cons field .nil)) .nil)
  let message : Tree (.part .topItem) := .node ⟨.topItem, 3⟩ (.cons (.node ⟨.messageDecl, 0⟩
    (.cons (leafAt (.keyword .kwMessage) ['m', 'e', 's', 's', 'a', 'g', 'e'] 14)
      (.cons (wordAt ['M'] 22) (.cons (leafAt (.mark .lbrace) ['\x7b'] 24) (.cons items
        (.cons (leafAt (.mark .rbrace) ['\x7d'] 67) .nil)))))) .nil)
  .node .bareFile (.cons (.node ⟨.topItems, 1⟩
    (.cons (.node .firstItem (.cons dependency .nil)) (.cons message .nil))) .nil)

/-- The field of this file. -/
def optionFieldDecl : FieldDecl :=
  ⟨"c", 1, .named ".B" (some ⟨1, 37⟩), some .optional,
    [⟨"(x).y", ⟨.int (-2), some ⟨1, 61⟩⟩, ⟨1, 49⟩⟩], none, ⟨1, 39⟩⟩

/-- What this file declares. -/
def optionFile (name : Text) : SchemaFile :=
  ⟨name, .proto2, none, [⟨"a", none, ⟨1, 8⟩⟩],
    [⟨"M", [optionFieldDecl], [], [], [], [], [], [], [], [], ⟨1, 22⟩⟩], [], [], [], []⟩

end Sample

theorem SchemaFile.parse_optionLexemes (name : Text) :
    SchemaFile.parse name (Lexed.spaced Sample.optionLexemes) = .ok (Sample.optionFile name) := by
  have hvalue : Sample.optionFileTree.value = .ok (Sample.optionFile "") := by
    with_unfolding_all rfl
  exact parse_spaced_tree (by decide) (by decide) hvalue rfl name

theorem SchemaFile.placed_of_parse_sample :
    SchemaFile.parse (Text.ofString "o.proto") (Lexed.spaced Sample.optionLexemes) =
        .ok (Sample.optionFile (Text.ofString "o.proto")) ∧
      (Sample.optionFile (Text.ofString "o.proto")).Placed (Lexed.spaced Sample.optionLexemes) :=
  ⟨parse_optionLexemes _, placed_of_parse (parse_optionLexemes (Text.ofString "o.proto"))⟩

end ProtoSchema
