import Mathlib.Data.List.Forall2
import ProtoSchema.Descriptor.Render
import ProtoSchema.Linker.Default
import ProtoSchema.Proofs.Name.Words
import ProtoSchema.Proofs.Schema.Phrases

/-!
# Rendered fields

A declaration mirrors the record of a message if it declares the same fields, enums and messages
again, in the same order, and each of them with its name and number, and with its label, type and
options (`Linker.Mirrors`). A message that is the entry of a map is not declared again, since the
fields of the map are. What is written of a field behind its type is its name and number, and its
default and packing, in the form in which the record has them (`exists_tail`).
-/

namespace ProtoSchema

/-! ## References to types -/

/-- The name that the type of a field is referred to with: the keyword of a scalar, or the full name
of a message or an enum behind a point. -/
def Tables.RefersTo (t : Tables) (f : FieldRecord) (text : String) : Prop :=
  match f.type with
  | .message | .group =>
    ∃ m, f.messageType.bind (t.messages[·]?) = some m ∧ text = "." ++ m.fullName
  | .enum => ∃ e, f.enumType.bind (t.enums[·]?) = some e ∧ text = "." ++ e.fullName
  | type => type ∈ FieldType.scalars ∧ text = type.keyword

/-- The entry of the map that a field is. -/
def Tables.entry? (t : Tables) (f : FieldRecord) : Option MessageRecord :=
  (f.messageType.bind (t.messages[·]?)).filter (·.isMapEntry)

/-- What the type of a field is linked to. -/
def FieldRecord.link (f : FieldRecord) : TypeLink := ⟨f.type, f.typeName, f.messageType, f.enumType⟩

/-! ## Mirrors -/

/-- An enum has nothing but its values. -/
structure EnumDecl.Plain (d : EnumDecl) : Prop where
  options : d.options = []
  reservedRanges : d.reservedRanges = []
  reservedNames : d.reservedNames = []

/-- A message has nothing but fields, enums and messages. -/
structure MessageDecl.Plain (d : MessageDecl) : Prop where
  extendBlocks : d.extendBlocks = []
  oneofs : d.oneofs = []
  options : d.options = []
  extensionRanges : d.extensionRanges = []
  reservedRanges : d.reservedRanges = []
  reservedNames : d.reservedNames = []

namespace Tables

/-- A declared field has the label and type of a record, or the types of key and value of the map
that it is. -/
def MirrorsType (t : Tables) (f : FieldRecord) (d : FieldDecl) : Prop :=
  match t.entry? f with
  | none => d.label = some f.label ∧ ∃ type position, d.shape = .named type position ∧ t.RefersTo f type
  | some entry => ∃ key value keyType valueType position,
      entry.fields.map (t.fields[·]?) = [some key, some value] ∧
      d.shape = .map keyType valueType position ∧ t.RefersTo key keyType ∧ t.RefersTo value valueType

/-- A declared enum has the name and the values of a record, and nothing else. -/
structure MirrorsEnum (t : Tables) (e : EnumRecord) (d : EnumDecl) : Prop where
  plain : d.Plain
  name : d.name = e.name
  values : e.values.Forall₂ (fun place v => ∃ r, t.enumValues[place]? = some r ∧
    v.name = r.name ∧ v.number = r.number) d.values

end Tables

namespace Linker

/-- A value is converted to a default of a field: to the given one, or to any other of a floating
type. -/
def ConvertsTo (l : Linker) (f : FieldRecord) (value : Value) (x : DefaultValue) : Prop :=
  ∃ y, l.convertDefault f.link value = .ok y ∧ (f.type ≠ .float → f.type ≠ .double → y = x)

/-- Declared options set the default of a record just if it has one, and pack it just if it is
packed. The default of a type that is not floating is converted back to that of the record. -/
structure MirrorsOptions (l : Linker) (f : FieldRecord) (options : List OptionDecl) : Prop where
  no_default : f.default = none → options.find? (·.name == "default") = none
  default : ∀ x, f.default = some x → ∃ o, options.find? (·.name == "default") = some o ∧
    l.ConvertsTo f o.value.value x
  unpacked : f.packed = false → options.find? (·.name == "packed") = none
  packed : f.packed = true → ∃ o, options.find? (·.name == "packed") = some o ∧
    o.value.value.flag? = some true

/-- A declared field mirrors a record. -/
structure MirrorsField (l : Linker) (t : Tables) (f : FieldRecord) (d : FieldDecl) : Prop where
  name : d.name = f.name
  number : d.number = f.number
  type : t.MirrorsType f d
  options : l.MirrorsOptions f d.options

/-- A declared message mirrors a record, with all that is nested in it and with nothing else. -/
inductive Mirrors (l : Linker) (t : Tables) : MessageRecord → MessageDecl → Prop
  | intro {m : MessageRecord} {d : MessageDecl} {nested : List MessageRecord} (plain : d.Plain)
      (name : d.name = m.name)
      (fields : m.fields.Forall₂ (fun place f => ∃ r, t.fields[place]? = some r ∧
        l.MirrorsField t r f) d.fields)
      (enums : m.enums.Forall₂ (fun place e => ∃ r, t.enums[place]? = some r ∧
        t.MirrorsEnum r e) d.enums)
      (places : m.messages.map (t.messages[·]?) = nested.map some)
      (messages : (nested.filter (!·.isMapEntry)).Forall₂ (Mirrors l t) d.messages) :
      Mirrors l t m d

end Linker

open Dotted

/-! ## Options -/

/-- What the literal for a default is read as. -/
def Tables.Denotes (t : Tables) : DefaultValue → Value → Prop
  | .int i, value => value = .int i
  | .float _, value => value.IsFloating
  | .bool b, value => value = .ident (if b then "true" else "false")
  | .string s, value => value = .string s
  | .bytes bs, value => value = .string (.ofBytes bs)
  | .enumValue place, value => ∃ v, t.enumValues[place]? = some v ∧ value = .ident v.name

section Options

variable {l : Linker} {t : Tables} {f : FieldRecord}

theorem isWord_flags : IsWord "true" ∧ IsWord "false" ∧ IsWord "default" ∧ IsWord "packed" := by
  decide +kernel

theorem phrase_literal (hvalues : ∀ v ∈ t.enumValues, IsWord v.name) {x : DefaultValue}
    {text : String} (h : t.literal? x = some text) :
    Nonterminal.constant.Phrase Item.Quiet text fun c _ => t.Denotes x c.value := by
  have hany {text : String} {R : Constant → Item → Prop}
      (h : Nonterminal.constant.Phrase (fun _ => True) text R) :
      Nonterminal.constant.Phrase Item.Quiet text R := by
    obtain ⟨ls, hsegment, hreads⟩ := h
    exact ⟨ls, hsegment, fun prev _ => hreads prev trivial⟩
  cases x with
  | int i =>
    obtain rfl := Option.some.inj h
    exact hany (phrase_int i)
  | float x =>
    obtain rfl := Option.some.inj h
    exact phrase_float x
  | bool b =>
    obtain rfl := Option.some.inj h
    cases b with
    | true => exact phrase_word isWord_flags.1
    | false => exact phrase_word isWord_flags.2.1
  | string s =>
    obtain rfl := Option.some.inj h
    have hphrase := hany (phrase_string (Utf8.encode s.toList))
    rw [Text.ofBytes_encode] at hphrase
    exact hphrase
  | bytes bs =>
    obtain rfl := Option.some.inj h
    exact hany (phrase_string bs)
  | enumValue place =>
    obtain ⟨v, hv, rfl⟩ := Option.map_eq_some_iff.mp h
    obtain ⟨ls, hsegment, hreads⟩ := phrase_word (hvalues v (Array.mem_of_getElem? hv))
    exact ⟨ls, hsegment, fun prev hprev => (hreads prev hprev).imp fun c _ hc => ⟨v, hv, hc⟩⟩

/-- An option is its name and its value. -/
theorem phrase_option {name value : String} {Q : Value → Prop} (hname : IsWord name)
    (hvalue : Nonterminal.constant.Phrase Item.Quiet value fun c _ => Q c.value) :
    Nonterminal.fieldOption.Phrase Item.Quiet (name ++ " = " ++ value) fun o _ =>
      o.name = name ∧ Q o.value.value := by
  have hequal : (⟨⟨.fieldOption, 0⟩, 2⟩ : Item).Quiet := by decide
  obtain ⟨ls, hsegment, hreads⟩ := hvalue
  refine ⟨[wordLexed name] ++ (.mark .equal, ['=']) :: ls, ?_, fun prev hprev => ?_⟩
  · have htext : (name ++ " = " ++ value).toList = name.toList ++ ' ' :: '=' :: ' ' :: value.toList := by
      simp
    rw [htext]
    exact (segment_word hname).spaced ((hsegment.blank rfl).mark (m := .equal) nofun)
  · have hpart := reads_optionName (hprev.admits (wordLexed name))
    refine Nonterminal.reads_rule 0 (Action.reads_part hpart fun v _ hv => ?_)
    refine Action.reads_terminal rfl Item.admits_mark fun _ _ => ?_
    exact Action.reads_last (hreads _ hequal) fun c _ hc => ⟨_, rfl, hv, hc⟩

/-- One option in brackets. -/
theorem phrase_single {option : String} {P : OptionDecl → Prop}
    (h : Nonterminal.fieldOption.Phrase Item.Quiet option fun o _ => P o) :
    Nonterminal.fieldOptions.Phrase (fun _ => True) ("[" ++ option ++ "]") fun os _ =>
      ∃ o, os = [o] ∧ P o := by
  have hopen : (⟨⟨.fieldOptions, 1⟩, 1⟩ : Item).Quiet := by decide
  obtain ⟨ls, hsegment, hreads⟩ := h
  refine ⟨(.mark .lbracket, ['[']) :: (ls ++ [(.mark .rbracket, [']'])]), ?_, fun prev _ => ?_⟩
  · have htext : ("[" ++ option ++ "]").toList = '[' :: (option.toList ++ [']']) := by simp
    rw [htext]
    exact (hsegment.marked (m := .rbracket) nofun .nil).mark (m := .lbracket) nofun
  · refine Nonterminal.reads_rule 1 (Action.reads_terminal rfl Item.admits_mark ?_)
    refine fun _ _ => Action.reads_part (hreads _ hopen) fun o _ ho => ?_
    exact Action.reads_terminal rfl Item.admits_mark fun _ _ =>
      Action.reads_nil rfl ⟨o, rfl, ho⟩

/-- Two options in brackets. -/
theorem phrase_pair {first second : String} {P Q : OptionDecl → Prop}
    (h : Nonterminal.fieldOption.Phrase Item.Quiet first fun o _ => P o)
    (h' : Nonterminal.fieldOption.Phrase Item.Quiet second fun o _ => Q o) :
    Nonterminal.fieldOptions.Phrase (fun _ => True) ("[" ++ first ++ ", " ++ second ++ "]")
      fun os _ => ∃ o o', os = [o, o'] ∧ P o ∧ Q o' := by
  have hopen : (⟨⟨.fieldOptions, 0⟩, 1⟩ : Item).Quiet ∧ (⟨⟨.moreFieldOptions, 0⟩, 1⟩ : Item).Quiet := by
    decide
  obtain ⟨ls, hsegment, hreads⟩ := h
  obtain ⟨ms, hsegment', hreads'⟩ := h'
  refine ⟨(.mark .lbracket, ['[']) :: (ls ++ ((.mark .comma, [',']) :: ms ++
    [(.mark .rbracket, [']'])])), ?_, fun prev _ => ?_⟩
  · have htext : ("[" ++ first ++ ", " ++ second ++ "]").toList =
        '[' :: (first.toList ++ ',' :: ' ' :: (second.toList ++ [']'])) := by simp
    rw [htext]
    have hsecond := (hsegment'.marked (m := .rbracket) nofun .nil).blank (c := ' ') rfl
    exact (hsegment.marked (m := .comma) nofun hsecond).mark (m := .lbracket) nofun
  · have hmore {prev : Item} : Nonterminal.moreFieldOptions.Reads prev ((.mark .comma, [',']) :: ms)
        fun os _ => ∃ o, os = [o] ∧ Q o := by
      refine Nonterminal.reads_rule 0 (Action.reads_terminal rfl Item.admits_mark ?_)
      exact fun _ _ => Action.reads_last (hreads' _ hopen.2) fun o _ ho => ⟨_, rfl, o, rfl, ho⟩
    refine Nonterminal.reads_rule 0 (Action.reads_terminal rfl Item.admits_mark ?_)
    refine fun _ _ => Action.reads_part (hreads _ hopen.1) fun o _ ho => ?_
    refine Action.reads_part hmore ?_
    rintro _ _ ⟨o', rfl, ho'⟩
    exact Action.reads_terminal rfl Item.admits_mark fun _ _ =>
      Action.reads_nil rfl ⟨o, o', rfl, ho, ho'⟩

/-- Either there are no options, or they are read as those that the record asks for. -/
theorem fieldOptions_cases (hvalues : ∀ v ∈ t.enumValues, IsWord v.name)
    (hdefault : ∀ x, f.default = some x → (∃ text, t.literal? x = some text) ∧
      ∀ value, t.Denotes x value → l.ConvertsTo f value x) :
    (t.fieldOptions f = "" ∧ l.MirrorsOptions f []) ∨
    ∃ text, t.fieldOptions f = " " ++ text ∧
      Nonterminal.fieldOptions.Phrase (fun _ => True) text fun os _ => l.MirrorsOptions f os := by
  have hpacked := phrase_option (Q := (· = .ident "true")) isWord_flags.2.2.2
    (phrase_word isWord_flags.1)
  rw [show "packed" ++ " = " ++ "true" = "packed = true" by decide] at hpacked
  have himp {text : String} {R S : List OptionDecl → Item → Prop}
      (h : Nonterminal.fieldOptions.Phrase (fun _ => True) text R)
      (hRS : ∀ os last, R os last → S os last) :
      Nonterminal.fieldOptions.Phrase (fun _ => True) text S := by
    obtain ⟨ls, hsegment, hreads⟩ := h
    exact ⟨ls, hsegment, fun prev hprev => (hreads prev hprev).imp hRS⟩
  cases hf : f.default with
  | none =>
    cases hp : f.packed with
    | false =>
      refine .inl ⟨?_, ?_⟩
      · simp [Tables.fieldOptions, Tables.defaultLiteral?, hf, hp]
      · exact ⟨fun _ => rfl, by simp [hf], fun _ => rfl, by simp [hp]⟩
    | true =>
      refine .inr ⟨_, ?_, himp (phrase_single hpacked) ?_⟩
      · simp [Tables.fieldOptions, Tables.defaultLiteral?, hf, hp]
      · rintro _ _ ⟨o, rfl, hname, hvalue⟩
        refine ⟨fun _ => ?_, by simp [hf], by simp [hp], fun _ => ⟨o, ?_, ?_⟩⟩
        · simp [hname]
        · simp [hname]
        · simp [hvalue, Value.flag?]
  | some x =>
    obtain ⟨⟨text, htext⟩, hconvert⟩ := hdefault x hf
    have hoption := phrase_option isWord_flags.2.2.1 (phrase_literal hvalues htext)
    cases hp : f.packed with
    | false =>
      refine .inr ⟨_, ?_, himp (phrase_single hoption) ?_⟩
      · apply String.toList_injective
        simp [Tables.fieldOptions, Tables.defaultLiteral?, hf, hp, htext]
      · rintro _ _ ⟨o, rfl, hname, hvalue⟩
        refine ⟨by simp [hf], ?_, fun _ => ?_, by simp [hp]⟩
        · rintro y hy
          obtain rfl := Option.some.inj (hf.symm.trans hy)
          exact ⟨o, by simp [hname], hconvert _ hvalue⟩
        · simp [hname]
    | true =>
      refine .inr ⟨_, ?_, himp (phrase_pair hoption hpacked) ?_⟩
      · apply String.toList_injective
        simp [Tables.fieldOptions, Tables.defaultLiteral?, hf, hp, htext]
      · rintro _ _ ⟨o, o', rfl, ⟨hname, hvalue⟩, hname', hvalue'⟩
        refine ⟨by simp [hf], ?_, by simp [hp], fun _ => ⟨o', ?_, ?_⟩⟩
        · rintro y hy
          obtain rfl := Option.some.inj (hf.symm.trans hy)
          exact ⟨o, by simp [hname], hconvert _ hvalue⟩
        · simp [hname, hname']
        · simp [hvalue', Value.flag?]

end Options

/-! ## Fields -/

section Fields

variable {l : Linker} {t : Tables} {f : FieldRecord}

/-- Lexemes are read as name and number of a field, and as the end of its declaration. -/
def ReadsTail (name : String) (number : Nat) (ls : List Lexed) : Prop :=
  ∀ {β : Type} {i prev : Item} {R : β → Item → Prop}
    {action : Action β [.part .name, .mark .equal, .part .fieldNumber, .mark .semicolon]},
    prev.Quiet → (∀ w eq k semicolon, w.text = name → k = number →
      ∃ v, action w eq k semicolon = .ok v ∧ ∀ last, R v last) →
    Action.Reads i prev _ action ls R

/-- Lexemes are read as name, number and options of a field, and as the end of its declaration. -/
def ReadsTailWith (name : String) (number : Nat) (Q : List OptionDecl → Prop) (ls : List Lexed) :
    Prop :=
  ∀ {β : Type} {i prev : Item} {R : β → Item → Prop}
    {action : Action β [.part .name, .mark .equal, .part .fieldNumber, .part .fieldOptions,
      .mark .semicolon]},
    prev.Quiet → (∀ w eq k os semicolon, w.text = name → k = number → Q os →
      ∃ v, action w eq k os semicolon = .ok v ∧ ∀ last, R v last) →
    Action.Reads i prev _ action ls R

/-- A declaration goes on behind its type with options or without. -/
theorem exists_tail (hname : IsWord f.name) (hvalues : ∀ v ∈ t.enumValues, IsWord v.name)
    (hdefault : ∀ x, f.default = some x → (∃ text, t.literal? x = some text) ∧
      ∀ value, t.Denotes x value → l.ConvertsTo f value x) :
    ∃ ls, Segment (f.name ++ " = " ++ toString f.number ++ t.fieldOptions f ++ ";").toList ls ∧
      (ReadsTail f.name f.number ls ∧ l.MirrorsOptions f [] ∨
        ReadsTailWith f.name f.number (l.MirrorsOptions f) ls) := by
  obtain ⟨ns, hnumber, hreads⟩ := phrase_fieldNumber f.number
  rcases fieldOptions_cases hvalues hdefault with ⟨hnone, hmirrors⟩ | ⟨text, htext, os, hoptions, hos⟩
  · refine ⟨[wordLexed f.name] ++ (.mark .equal, ['=']) :: (ns ++ [(.mark .semicolon, [';'])]), ?_,
      .inl ⟨?_, hmirrors⟩⟩
    · have hline : (f.name ++ " = " ++ toString f.number ++ t.fieldOptions f ++ ";").toList =
          f.name.toList ++ ' ' :: '=' :: ' ' :: ((toString f.number).toList ++ [';']) := by
        simp [hnone]
      rw [hline]
      have hend := (hnumber.marked (m := .semicolon) nofun .nil).blank (c := ' ') rfl
      exact (segment_word hname).spaced (hend.mark (m := .equal) nofun)
    · intro β i prev R action hprev haction
      refine Action.reads_part (reads_name (hprev.admits _)) fun w _ hw => ?_
      refine Action.reads_terminal rfl Item.admits_mark fun eq _ => ?_
      refine Action.reads_part (hreads _ trivial) fun k _ hk => ?_
      refine Action.reads_terminal rfl Item.admits_mark fun semicolon _ => ?_
      obtain ⟨v, hv, hR⟩ := haction w eq k semicolon hw.1 hk
      exact Action.reads_nil hv (hR _)
  · refine ⟨[wordLexed f.name] ++ (.mark .equal, ['=']) :: (ns ++ (os ++ [(.mark .semicolon, [';'])])),
      ?_, .inr ?_⟩
    · have hline : (f.name ++ " = " ++ toString f.number ++ t.fieldOptions f ++ ";").toList =
          f.name.toList ++ ' ' :: '=' :: ' ' :: ((toString f.number).toList ++
            ' ' :: (text.toList ++ [';'])) := by
        simp [htext]
      rw [hline]
      have hend := (hnumber.spaced (hoptions.marked (m := .semicolon) nofun .nil)).blank (c := ' ') rfl
      exact (segment_word hname).spaced (hend.mark (m := .equal) nofun)
    · intro β i prev R action hprev haction
      refine Action.reads_part (reads_name (hprev.admits _)) fun w _ hw => ?_
      refine Action.reads_terminal rfl Item.admits_mark fun eq _ => ?_
      refine Action.reads_part (hreads _ trivial) fun k _ hk => ?_
      refine Action.reads_part (hos _ trivial) fun options _ hoptions => ?_
      refine Action.reads_terminal rfl Item.admits_mark fun semicolon _ => ?_
      obtain ⟨v, hv, hR⟩ := haction w eq k options semicolon hw.1 hk hoptions
      exact Action.reads_nil hv (hR _)

theorem phrase_label (label : Label) :
    Nonterminal.fieldLabel.Phrase (fun _ => True) label.name fun v _ => v = label := by
  have hkeyword (k : Keyword) : Segment k.spelling.toList [(.keyword k, k.spelling.toList)] :=
    Segment.lexeme (l := (.keyword k, k.spelling.toList)) rfl
  cases label with
  | optional =>
    exact ⟨_, hkeyword .kwOptional, fun _ _ => Nonterminal.reads_rule 0
      (Action.reads_terminal rfl Item.admits_keyword fun _ _ => Action.reads_nil rfl rfl)⟩
  | required =>
    exact ⟨_, hkeyword .kwRequired, fun _ _ => Nonterminal.reads_rule 1
      (Action.reads_terminal rfl Item.admits_keyword fun _ _ => Action.reads_nil rfl rfl)⟩
  | repeated =>
    exact ⟨_, hkeyword .kwRepeated, fun _ _ => Nonterminal.reads_rule 2
      (Action.reads_terminal rfl Item.admits_keyword fun _ _ => Action.reads_nil rfl rfl)⟩

end Fields

end ProtoSchema
