import ProtoSchema.Proofs.Descriptor.Rendered
import ProtoSchema.Proofs.Schema.Accepted

/-!
# Rendered messages

The lines of an enum and those of a message are read as declarations that mirror their records, and
the text of a message as a file that declares it alone.
-/

namespace ProtoSchema

open Dotted

section Writes

variable {l : Linker} {t : Tables}

/-! ## Enums -/

/-- Behind the item another statement of an enum may stand. -/
def Item.InEnum (i : Item) : Prop := i.keywords = [.kwOption, .kwReserved]

instance (i : Item) : Decidable i.InEnum := inferInstanceAs (Decidable (_ = _))

/-- The lexeme for the name of an enum value, which may be a keyword that opens another statement. -/
def valueLexed (w : String) : Lexed :=
  if w = "option" then (.keyword .kwOption, w.toList)
  else if w = "reserved" then (.keyword .kwReserved, w.toList)
  else wordLexed w

theorem segment_value {w : String} (h : IsWord w) : Segment w.toList [valueLexed w] := by
  unfold valueLexed
  split_ifs with hoption hreserved
  · exact Segment.lexeme (l := (.keyword .kwOption, w.toList)) (by rw [hoption]; rfl)
  · exact Segment.lexeme (l := (.keyword .kwReserved, w.toList)) (by rw [hreserved]; rfl)
  · exact segment_word h

theorem reads_valueName {w : String} {prev : Item} (hprev : prev.InEnum) :
    Nonterminal.enumValueName.Reads prev [valueLexed w] fun v _ => v.text = w := by
  have htext {token : Token} {t : Terminal} (h : token.lexed = (t, w.toList)) : token.ident.text = w := by
    rw [Token.ident, Token.text, (Prod.mk.inj h).2, String.ofList_toList]
  unfold valueLexed
  split_ifs with hoption hreserved
  · exact Nonterminal.reads_rule 1 (Action.reads_terminal rfl Item.admits_keyword
      fun _ htoken => Action.reads_nil rfl (htext htoken))
  · exact Nonterminal.reads_rule 2 (Action.reads_terminal rfl Item.admits_keyword
      fun _ htoken => Action.reads_nil rfl (htext htoken))
  · refine Nonterminal.reads_rule 0 (Action.reads_terminal rfl ?_
      fun _ htoken => Action.reads_nil rfl (htext htoken))
    intro _ k hk hmem
    have hspelling : k.spelling = w := by
      have := List.find?_some hk
      exact String.toList_injective (by simpa [wordLexed] using this)
    rw [hprev] at hmem
    simp only [List.mem_cons, List.not_mem_nil, or_false] at hmem
    rcases hmem with rfl | rfl
    · exact hoption hspelling.symm
    · exact hreserved hspelling.symm

/-- The line of an enum value is read as this value. -/
theorem chunk_value {v : EnumValueRecord} (h : IsWord v.name) :
    Nonterminal.enumItem.Chunk Item.InEnum [s!"  {v.name} = {v.number};"] fun item =>
      ∃ d : EnumValueDecl, item = .value d ∧ d.name = v.name ∧ d.number = v.number := by
  have hend : (⟨⟨.enumValue, 1⟩, 4⟩ : Item).InEnum := by decide
  obtain ⟨ns, hnumber, hreads⟩ := phrase_signedInt v.number
  refine ⟨[valueLexed v.name] ++ (.mark .equal, ['=']) :: (ns ++ [(.mark .semicolon, [';'])]),
    .single (Segment.line ?_), fun prev hprev => ?_⟩
  · have htext : (s!"  {v.name} = {v.number};").toList = ' ' :: ' ' :: (v.name.toList ++
        ' ' :: '=' :: ' ' :: ((toString v.number).toList ++ [';'])) := by
      simp [toString_self]
    rw [htext]
    have hnumber := (hnumber.marked (m := .semicolon) nofun .nil).blank (c := ' ') rfl
    exact (((segment_value h).spaced (hnumber.mark (m := .equal) nofun)).blank rfl).blank rfl
  · have hvalue : Nonterminal.enumValue.Reads prev ([valueLexed v.name] ++ (.mark .equal, ['=']) ::
        (ns ++ [(.mark .semicolon, [';'])])) fun d last =>
          (d.name = v.name ∧ d.number = v.number) ∧ last.InEnum := by
      refine Nonterminal.reads_rule 1 (Action.reads_part (reads_valueName hprev) fun w _ hw => ?_)
      refine Action.reads_terminal rfl Item.admits_mark fun _ _ => ?_
      refine Action.reads_part (hreads _ trivial) fun i _ hi => ?_
      exact Action.reads_terminal rfl Item.admits_mark fun _ _ =>
        Action.reads_nil rfl ⟨⟨hw, hi⟩, hend⟩
    exact Nonterminal.reads_rule 0 (Action.reads_last hvalue fun d _ hd =>
      ⟨_, rfl, ⟨d, rfl, hd.1⟩, hd.2⟩)

/-- A keyword, a name, and a body in braces. -/
theorem lines_block (k : Keyword) {w : String} (h : IsWord w) {body : List String} {ls : List Lexed}
    (hbody : Lines body ls) :
    Lines ([k.spelling ++ " " ++ w ++ " \x7b"] ++ body ++ ["\x7d"])
      ((.keyword k, k.spelling.toList) :: ([wordLexed w] ++ (.mark .lbrace, ['\x7b']) ::
        (ls ++ [(.mark .rbrace, ['\x7d'])]))) := by
  have hkeyword : Segment k.spelling.toList [(.keyword k, k.spelling.toList)] :=
    Segment.lexeme (l := (.keyword k, k.spelling.toList)) rfl
  have htext : (k.spelling ++ " " ++ w ++ " \x7b").toList =
      k.spelling.toList ++ ' ' :: (w.toList ++ ' ' :: ['\x7b']) := by
    simp
  have hopen := hkeyword.spaced ((segment_word h).spaced (Segment.nil.mark (m := .lbrace) nofun))
  have hclose : Line "\x7d" [(.mark .rbrace, ['\x7d'])] :=
    Segment.line (Segment.nil.mark (m := .rbrace) nofun)
  have hlines := ((Lines.single (Segment.line (htext ▸ hopen))).append hbody).append (.single hclose)
  simpa [Mark.character] using hlines

/-- An enum of values alone. -/
theorem EnumDecl.plain_ofItems (name : Ident) {items : List EnumItem}
    (h : ∀ item ∈ items, ∃ d, item = .value d) : (EnumDecl.ofItems name items).Plain := by
  have hreserved : items.filterMap EnumItem.reserved? = [] := by
    refine List.filterMap_eq_nil_iff.mpr fun item hitem => ?_
    obtain ⟨d, rfl⟩ := h item hitem
    rfl
  refine ⟨List.filterMap_eq_nil_iff.mpr fun item hitem => ?_, ?_, ?_⟩
  · obtain ⟨d, rfl⟩ := h item hitem
    rfl
  · rw [ofItems, hreserved]
    rfl
  · rw [ofItems, hreserved]
    rfl

theorem Linker.Writes.chunk_enum (h : l.Writes t) {e : EnumRecord} (he : e ∈ t.enums) :
    Nonterminal.enumDecl.Chunk (fun _ => True) (t.enumLines e) (t.MirrorsEnum e) := by
  have hopen : (⟨⟨.enumDecl, 0⟩, 3⟩ : Item).InEnum := by decide
  have hkeyword : (⟨⟨.enumDecl, 0⟩, 1⟩ : Item).Quiet ∧ (⟨⟨.enumDecl, 1⟩, 1⟩ : Item).Quiet := by decide
  obtain ⟨rs, hrs, hmem⟩ := exists_records (h.valuePlaces e he)
  have hlines : t.enumLines e = [Keyword.kwEnum.spelling ++ " " ++ e.name ++ " \x7b"] ++
      rs.flatMap (fun v => [s!"  {v.name} = {v.number};"]) ++ ["\x7d"] := by
    rw [Tables.enumLines, filterMap_of_map hrs, ← List.map_eq_flatMap]
    rfl
  rw [hlines]
  by_cases hempty : rs = []
  · subst hempty
    refine ⟨_, lines_block .kwEnum (h.enums e he).1 .nil, fun prev _ => ?_⟩
    refine Nonterminal.reads_rule 1 (Action.reads_terminal rfl Item.admits_keyword ?_)
    refine fun _ _ => Action.reads_part (reads_name (hkeyword.2.admits _)) fun w _ hw => ?_
    refine Action.reads_terminal rfl Item.admits_mark fun _ _ => ?_
    refine Action.reads_terminal rfl Item.admits_mark fun _ _ => ?_
    refine Action.reads_nil rfl ⟨⟨⟨rfl, rfl, rfl⟩, hw.1, ?_⟩, trivial⟩
    exact forall₂_places hrs .nil
  · obtain ⟨ls, hls, hreads⟩ := @exists_run _ _ Nonterminal.enumItem.Reads
      Nonterminal.enumItems.Reads
      (fun h hR => Nonterminal.reads_rule 0 (Action.reads_last h fun _ _ hv => ⟨_, rfl, hR _ _ hv⟩))
      (fun h h' hR => Nonterminal.reads_rule 1 (Action.reads_part h fun _ _ hvs =>
        Action.reads_last (h' _ _ hvs) fun _ _ hv => ⟨_, rfl, hR _ _ _ _ hvs hv⟩))
      _ _ _ _ hempty fun v hv => chunk_value (h.values v (hmem v hv))
    refine ⟨_, lines_block .kwEnum (h.enums e he).1 hls, fun prev _ => ?_⟩
    refine Nonterminal.reads_rule 0 (Action.reads_terminal rfl Item.admits_keyword ?_)
    refine fun _ _ => Action.reads_part (reads_name (hkeyword.1.admits _)) fun w _ hw => ?_
    refine Action.reads_terminal rfl Item.admits_mark fun _ _ => ?_
    refine Action.reads_part (hreads _ hopen) fun items _ hitems => ?_
    refine Action.reads_terminal rfl Item.admits_mark fun _ _ => ?_
    refine Action.reads_nil rfl ⟨⟨?_, hw.1, ?_⟩, trivial⟩
    · refine EnumDecl.plain_ofItems w fun item hitem => ?_
      obtain ⟨v, -, d, rfl, -⟩ := exists_of_forall₂ hitems.1 item hitem
      exact ⟨d, rfl⟩
    refine forall₂_places hrs ?_
    rw [← @List.filterMap_some _ rs]
    refine List.rel_filterMap ?_ hitems.1
    rintro v _ ⟨d, rfl, hd⟩
    exact .some hd

/-! ## Messages -/

/-- What a message declares: a field, an enum, or a message that is nested in it. -/
inductive Member
  | field (f : FieldRecord)
  | enum (e : EnumRecord)
  | message (m : MessageRecord)

namespace Member

/-- All members of a message in their order. -/
def all (fs : List FieldRecord) (es : List EnumRecord) (ns : List MessageRecord) : List Member :=
  fs.map field ++ es.map enum ++ (ns.filter (!·.isMapEntry)).map message

/-- The field that a member is. -/
def field? : Member → Option FieldRecord
  | field f => some f
  | _ => none

/-- The enum that a member is. -/
def enum? : Member → Option EnumRecord
  | enum e => some e
  | _ => none

/-- The message that a member is. -/
def message? : Member → Option MessageRecord
  | message m => some m
  | _ => none

end Member

/-- The lines of a member. -/
def Member.lines (t : Tables) (depth : Nat) : Member → List String
  | field f => [t.fieldLine f]
  | enum e => t.enumLines e
  | message m => t.messageLines depth m

/-- Every field of a message is one that the older dialect allows, at any depth. -/
def MessageDecl.Labeled (d : MessageDecl) : Prop :=
  d.Forall (MessageDecl.ForallFields fun f => f.problem? .proto2 = none)

/-- An item declares what mirrors a member. -/
inductive Member.Mirrored (l : Linker) (t : Tables) : Member → MessageItem → Prop
  | field {f : FieldRecord} {d : FieldDecl} (h : l.MirrorsField t f d)
      (hd : d.problem? .proto2 = none) : Mirrored l t (.field f) (.field d)
  | enum {e : EnumRecord} {d : EnumDecl} (h : t.MirrorsEnum e d) : Mirrored l t (.enum e) (.enum d)
  | message {m : MessageRecord} {d : MessageDecl} (h : l.Mirrors t m d) (hd : d.Labeled) :
      Mirrored l t (.message m) (.message d)

/-- A map has a key that maps may have, and another field its label. -/
theorem Linker.Writes.problem?_eq_none (h : l.Writes t) {f : FieldRecord} (hf : f ∈ t.fields)
    {d : FieldDecl} (hd : l.MirrorsField t f d) : d.problem? .proto2 = none := by
  have htype := hd.type
  unfold Tables.MirrorsType at htype
  cases hentry : t.entry? f with
  | none =>
    rw [hentry] at htype
    obtain ⟨hlabel, type, position, hshape, -⟩ := htype
    simp [FieldDecl.problem?, hshape, hlabel]
  | some entry =>
    rw [hentry] at htype
    obtain ⟨key, value, keyType, valueType, position, hfields, hshape, hkey, -⟩ := htype
    obtain ⟨key', value', type, hfields', hscalar, hname, -⟩ := h.maps f hf entry hentry
    obtain ⟨rfl, -⟩ : key = key' ∧ value = value' := by simpa using hfields.symm.trans hfields'
    have hkeyType : keyType = key.type.keyword :=
      hkey.typeReference.symm.trans (Tables.refersTo_scalar hscalar).typeReference
    simp [FieldDecl.problem?, hshape, hkeyType, hname]

/-- The item of a member is read behind everything. -/
theorem Linker.Writes.chunk_member (h : l.Writes t) {depth : Nat} {x : Member}
    (hfield : ∀ f, x = .field f → f ∈ t.fields) (henum : ∀ e, x = .enum e → e ∈ t.enums)
    (hmessage : ∀ m, x = .message m → Nonterminal.messageDecl.Chunk (fun _ => True)
      (t.messageLines depth m) fun d => l.Mirrors t m d ∧ d.Labeled) :
    Nonterminal.messageItem.Chunk (fun _ => True) (x.lines t depth) (x.Mirrored l t) := by
  cases x with
  | field f =>
    obtain ⟨ls, hlines, hreads⟩ := h.chunk_field (hfield f rfl)
    refine ⟨ls, hlines, fun prev hprev => (hreads prev hprev).imp ?_⟩
    rintro _ _ ⟨⟨d, rfl, hd⟩, -⟩
    exact ⟨.field hd (h.problem?_eq_none (hfield f rfl) hd), trivial⟩
  | enum e =>
    obtain ⟨ls, hlines, hreads⟩ := h.chunk_enum (henum e rfl)
    exact ⟨ls, hlines, fun prev hprev => Nonterminal.reads_rule 5
      (Action.reads_last (hreads prev hprev) fun _ _ hd => ⟨_, rfl, .enum hd.1, trivial⟩)⟩
  | message m =>
    obtain ⟨ls, hlines, hreads⟩ := hmessage m rfl
    exact ⟨ls, hlines, fun prev hprev => Nonterminal.reads_rule 4
      (Action.reads_last (hreads prev hprev) fun _ _ hd =>
        ⟨_, rfl, .message hd.1.1 hd.1.2, trivial⟩)⟩

/-- A message of fields, enums and messages alone. -/
theorem MessageDecl.plain_ofItems (name : Ident) {items : List MessageItem}
    (h : ∀ item ∈ items, (∃ d, item = .field d) ∨ (∃ d, item = .enum d) ∨ ∃ d, item = .message d) :
    (MessageDecl.ofItems name items).Plain := by
  have hnone {α : Type} {pick : MessageItem → Option α} (hfield : ∀ d, pick (.field d) = none)
      (henum : ∀ d, pick (.enum d) = none) (hmessage : ∀ d, pick (.message d) = none) :
      items.filterMap pick = [] := by
    refine List.filterMap_eq_nil_iff.mpr fun item hitem => ?_
    obtain ⟨d, rfl⟩ | ⟨d, rfl⟩ | ⟨d, rfl⟩ := h item hitem
    exacts [hfield d, henum d, hmessage d]
  have hreserved : items.filterMap MessageItem.reserved? = [] :=
    hnone (fun _ => rfl) (fun _ => rfl) fun _ => rfl
  refine ⟨hnone (fun _ => rfl) (fun _ => rfl) fun _ => rfl,
    hnone (fun _ => rfl) (fun _ => rfl) fun _ => rfl,
    hnone (fun _ => rfl) (fun _ => rfl) fun _ => rfl, ?_, ?_, ?_⟩
  · refine List.flatMap_eq_nil_iff.mpr fun item hitem => ?_
    obtain ⟨d, rfl⟩ | ⟨d, rfl⟩ | ⟨d, rfl⟩ := h item hitem <;> rfl
  · rw [ofItems, hreserved]
    rfl
  · rw [ofItems, hreserved]
    rfl

/-- Items that declare all members of a message make up a declaration of the message. -/
theorem Linker.mirrors_ofItems {m : MessageRecord} {w : Ident} (hname : w.text = m.name)
    {fs : List FieldRecord} (hfs : m.fields.map (t.fields[·]?) = fs.map some)
    {es : List EnumRecord} (hes : m.enums.map (t.enums[·]?) = es.map some)
    {ns : List MessageRecord} (hns : m.messages.map (t.messages[·]?) = ns.map some)
    {items : List MessageItem}
    (h : (Member.all fs es ns).Forall₂ (Member.Mirrored l t) items) :
    l.Mirrors t m (.ofItems w items) ∧ (MessageDecl.ofItems w items).Labeled := by
  have hfields : fs.Forall₂ (fun f d => l.MirrorsField t f d ∧ d.problem? .proto2 = none)
      (items.flatMap MessageItem.fields) := by
    have hpick : ((Member.all fs es ns).flatMap fun x => x.field?.toList).Forall₂
        (fun f d => l.MirrorsField t f d ∧ d.problem? .proto2 = none)
          (items.flatMap MessageItem.fields) := by
      refine List.rel_flatMap h ?_
      rintro _ _ (⟨hd, hproblem⟩ | _ | _)
      · exact .cons ⟨hd, hproblem⟩ .nil
      · exact .nil
      · exact .nil
    rw [← List.filterMap_eq_flatMap_toList] at hpick
    simpa [Member.all, List.filterMap_map, Function.comp_def, Member.field?] using hpick
  have henums : es.Forall₂ t.MirrorsEnum (items.filterMap MessageItem.enum?) := by
    have hpick : ((Member.all fs es ns).filterMap Member.enum?).Forall₂ t.MirrorsEnum
        (items.filterMap MessageItem.enum?) := by
      refine List.rel_filterMap ?_ h
      rintro _ _ (_ | hd | _)
      · exact .none
      · exact .some hd
      · exact .none
    simpa [Member.all, List.filterMap_map, Function.comp_def, Member.enum?] using hpick
  have hmessages : (ns.filter (!·.isMapEntry)).Forall₂ (fun m d => l.Mirrors t m d ∧ d.Labeled)
      (items.filterMap MessageItem.message?) := by
    have hpick : ((Member.all fs es ns).filterMap Member.message?).Forall₂
        (fun m d => l.Mirrors t m d ∧ d.Labeled) (items.filterMap MessageItem.message?) := by
      refine List.rel_filterMap ?_ h
      rintro _ _ (_ | _ | ⟨hd, hlabeled⟩)
      · exact .none
      · exact .none
      · exact .some ⟨hd, hlabeled⟩
    simpa [Member.all, List.filterMap_map, Function.comp_def, Member.message?] using hpick
  have hplain : (MessageDecl.ofItems w items).Plain := by
    refine MessageDecl.plain_ofItems w fun item hitem => ?_
    obtain ⟨x, -, _ | _ | _⟩ := exists_of_forall₂ h item hitem
    exacts [.inl ⟨_, rfl⟩, .inr (.inl ⟨_, rfl⟩), .inr (.inr ⟨_, rfl⟩)]
  have hextends : items.filterMap MessageItem.extend? = [] := hplain.extendBlocks
  constructor
  · exact .intro hplain hname (forall₂_places hfs (hfields.imp fun _ _ hd => hd.1))
      (forall₂_places hes henums) hns (hmessages.imp fun _ _ hd => hd.1)
  · rw [MessageDecl.Labeled, MessageDecl.ofItems, MessageDecl.Forall, hextends]
    refine ⟨⟨fun d hd => ?_, List.forall_mem_nil _⟩, MessageDecl.forallIn_iff.mpr fun d hd => ?_⟩
    · obtain ⟨f, -, hf⟩ := exists_of_forall₂ hfields d hd
      exact hf.2
    · obtain ⟨n, -, hn⟩ := exists_of_forall₂ hmessages d hd
      exact hn.2

/-- The lines of the body of a message are those of its members, and remarks. -/
theorem Tables.messageLines_eq (t : Tables) (depth : Nat) {m : MessageRecord} {fs : List FieldRecord}
    (hfs : m.fields.map (t.fields[·]?) = fs.map some) {es : List EnumRecord}
    (hes : m.enums.map (t.enums[·]?) = es.map some) {ns : List MessageRecord}
    (hns : m.messages.map (t.messages[·]?) = ns.map some) :
    t.messageLines (depth + 1) m = [Keyword.kwMessage.spelling ++ " " ++ m.name ++ " \x7b"] ++
      Tables.indented ((Member.all fs es ns).flatMap (Member.lines t depth) ++
        (t.fieldsAt m.extensions).map fun f => s!"// extension {f.fullName} = {f.number}") ++
      ["\x7d"] := by
  rw [Tables.messageLines, Tables.fieldsAt, filterMap_of_map hfs, filterMap_of_map hes,
    filterMap_of_map hns]
  simp only [Member.all, List.flatMap_append, List.flatMap_map, Member.lines, ← List.map_eq_flatMap]
  rfl

/-- Extensions are only remarks. -/
theorem Linker.Writes.lines_extensions (h : l.Writes t) (places : List Nat) :
    Lines ((t.fieldsAt places).map fun f => s!"// extension {f.fullName} = {f.number}") [] := by
  refine .remarks fun line hline => ?_
  obtain ⟨f, hf, rfl⟩ := List.mem_map.mp hline
  obtain ⟨place, -, hplace⟩ := List.mem_filterMap.mp hf
  have hname := (h.remarks f (Array.mem_of_getElem? hplace)).1
  have hnumber : '\n' ∉ Nat.toDigits 10 f.number := fun hmem =>
    absurd (isDigit_of_mem_toDigits hmem) (by decide)
  have htext : s!"// extension {f.fullName} = {f.number}" =
      "//" ++ (" extension " ++ f.fullName ++ " = " ++ toString f.number) := by
    apply String.toList_injective
    simp [toString_self]
  rw [htext]
  refine Line.remark ?_
  simpa using ⟨hname, hnumber⟩

/-- The lines of a message are read as a declaration of it. -/
theorem Linker.Writes.chunk_message (h : l.Writes t) (depth : Nat) {p : Nat} {m : MessageRecord}
    (hm : t.messages[p]? = some m) (hentry : m.isMapEntry = false)
    (hdepth : t.messages.size ≤ p + depth) :
    Nonterminal.messageDecl.Chunk (fun _ => True) (t.messageLines depth m) fun d =>
      l.Mirrors t m d ∧ d.Labeled := by
  induction depth generalizing p m with
  | zero =>
    have hp := (Array.getElem?_eq_some_iff.mp hm).1
    omega
  | succ depth ih =>
    have hmem := Array.mem_of_getElem? hm
    have hkeyword : (⟨⟨.messageDecl, 0⟩, 1⟩ : Item).Quiet ∧
        (⟨⟨.messageDecl, 1⟩, 1⟩ : Item).Quiet := by decide
    obtain ⟨fs, hfs, hfsmem⟩ := exists_records (h.fieldPlaces m hmem)
    obtain ⟨es, hes, hesmem⟩ := exists_records (h.enumPlaces m hmem)
    obtain ⟨ns, hns, -⟩ := exists_records fun q hq => (h.messagePlaces p m hm q hq).2
    have hremarks := h.lines_extensions m.extensions
    have hmember : ∀ x ∈ Member.all fs es ns, Nonterminal.messageItem.Chunk (fun _ => True)
        (x.lines t depth) (x.Mirrored l t) := by
      intro x hx
      simp only [Member.all, List.mem_append, List.mem_map, List.mem_filter, Bool.not_eq_true'] at hx
      refine h.chunk_member ?_ ?_ ?_
      · rintro f rfl
        exact hfsmem f (by simpa using hx)
      · rintro e rfl
        exact hesmem e (by simpa using hx)
      · rintro n rfl
        have hn : n ∈ ns ∧ n.isMapEntry = false := by simpa using hx
        obtain ⟨q, hq, hplace⟩ := List.mem_map.mp (hns ▸ List.mem_map_of_mem hn.1)
        have hlater := (h.messagePlaces p m hm q hq).1
        exact ih hplace hn.2 (by omega)
    rw [t.messageLines_eq depth hfs hes hns]
    by_cases hempty : Member.all fs es ns = []
    · rw [hempty]
      refine ⟨_, lines_block .kwMessage (h.messages m hmem hentry).1 hremarks.indented, fun prev _ => ?_⟩
      refine Nonterminal.reads_rule 1 (Action.reads_terminal rfl Item.admits_keyword ?_)
      refine fun _ _ => Action.reads_part (reads_name (hkeyword.2.admits _)) fun w _ hw => ?_
      refine Action.reads_terminal rfl Item.admits_mark fun _ _ => ?_
      refine Action.reads_terminal rfl Item.admits_mark fun _ _ => ?_
      refine Action.reads_nil rfl ⟨?_, trivial⟩
      exact mirrors_ofItems hw.1 hfs hes hns (hempty ▸ .nil)
    · obtain ⟨ls, hls, hreads⟩ := @exists_run _ _ Nonterminal.messageItem.Reads
        Nonterminal.messageItems.Reads
        (fun h hR => Nonterminal.reads_rule 0 (Action.reads_last h fun _ _ hv => ⟨_, rfl, hR _ _ hv⟩))
        (fun h h' hR => Nonterminal.reads_rule 1 (Action.reads_part h fun _ _ hvs =>
          Action.reads_last (h' _ _ hvs) fun _ _ hv => ⟨_, rfl, hR _ _ _ _ hvs hv⟩))
        _ _ _ _ hempty hmember
      have hbody := (hls.append hremarks).indented
      rw [List.append_nil] at hbody
      refine ⟨_, lines_block .kwMessage (h.messages m hmem hentry).1 hbody, fun prev _ => ?_⟩
      refine Nonterminal.reads_rule 0 (Action.reads_terminal rfl Item.admits_keyword ?_)
      refine fun _ _ => Action.reads_part (reads_name (hkeyword.1.admits _)) fun w _ hw => ?_
      refine Action.reads_terminal rfl Item.admits_mark fun _ _ => ?_
      refine Action.reads_part (hreads _ trivial) fun items _ hitems => ?_
      refine Action.reads_terminal rfl Item.admits_mark fun _ _ => ?_
      exact Action.reads_nil rfl ⟨mirrors_ofItems hw.1 hfs hes hns hitems.1, trivial⟩

/-! ## Files -/

/-- A character shows a unit of a text: a character itself, and a stray byte any that does not end a
line. -/
def TextUnit.ShownAs : TextUnit → Char → Prop
  | .char c, d => d = c
  | .stray _, d => d ≠ '\n'

/-- Characters show a text. There is one for each unit. -/
def Text.ShownAs (t : Text) (cs : List Char) : Prop := t.units.Forall₂ TextUnit.ShownAs cs

/-- Some characters show a text. -/
theorem Text.exists_shownAs (t : Text) : ∃ cs, t.ShownAs cs := by
  have hunit (u : TextUnit) : ∃ c, u.ShownAs c := by
    cases u with
    | char c => exact ⟨c, rfl⟩
    | stray b => exact ⟨' ', by simp [TextUnit.ShownAs]⟩
  choose shown hshown using hunit
  refine ⟨t.units.map shown, ?_⟩
  rw [Text.ShownAs, List.forall₂_map_right_iff, List.forall₂_same]
  exact fun u _ => hshown u

theorem Text.shownAs_ofChars {ds cs : List Char} : (Text.ofChars ds).ShownAs cs ↔ cs = ds := by
  rw [Text.ShownAs, Text.ofChars, List.forall₂_map_left_iff]
  refine ⟨fun h => ?_, ?_⟩
  · have heq := h.flip
    exact List.forall₂_eq_eq_eq ▸ heq
  · rintro rfl
    exact List.forall₂_same.mpr fun _ _ => rfl

/-- What shows a text shows its parts, the one behind the other. -/
theorem Text.ShownAs.split {a b : Text} {cs : List Char} (h : (a ++ b).ShownAs cs) :
    ∃ as bs, cs = as ++ bs ∧ a.ShownAs as ∧ b.ShownAs bs := by
  have hflip : List.Forall₂ (flip TextUnit.ShownAs) cs (a.units ++ b.units) := h.flip
  exact ⟨_, _, (List.take_append_drop a.units.length cs).symm,
    (List.forall₂_take_append _ _ _ hflip).flip, (List.forall₂_drop_append _ _ _ hflip).flip⟩

/-- A stray byte is not shown as the end of a line. -/
theorem Text.ShownAs.newline_notMem {t : Text} {cs : List Char} (h : t.ShownAs cs)
    (ht : .char '\n' ∉ t.units) : '\n' ∉ cs := by
  intro hmem
  obtain ⟨u, hu, hshown⟩ := exists_of_forall₂ h _ hmem
  cases u with
  | char c =>
    obtain rfl : '\n' = c := hshown
    exact ht hu
  | stray b => exact hshown rfl

/-- A file of one message, whose fields are allowed. -/
theorem SchemaFile.fault?_ofMessage {d : MessageDecl} (h : d.Labeled) :
    (⟨"", .proto2, none, [], [d], [], [], [], []⟩ : SchemaFile).fault? = none := by
  refine SchemaFile.fault?_eq_none_iff.mpr ⟨MessageDecl.forallIn_iff.mpr fun m hm => ?_, nofun⟩
  obtain rfl := List.mem_singleton.mp hm
  exact h

/-- The text of a message names the message and its file, with its lines below. -/
theorem Tables.ShownAs.exists_file {m : MessageRecord} {cs : List Char}
    (hcs : (t.render m).ShownAs cs) : ∃ file, m.file.ShownAs file ∧
      cs = '/' :: '/' :: (' ' :: (m.fullName.toList ++ " from ".toList ++ file) ++ '\n' ::
        (t.messageLines t.messages.size m).flatMap fun l => l.toList ++ ['\n']) := by
  obtain ⟨ds, ls, rfl, hds, hls⟩ := Text.ShownAs.split hcs
  obtain ⟨ds, ends, rfl, hds, hends⟩ := hds.split
  obtain ⟨ds, file, rfl, hds, hshown⟩ := hds.split
  obtain ⟨ds, words, rfl, hds, hwords⟩ := hds.split
  obtain ⟨opens, full, rfl, hopens, hfull⟩ := hds.split
  obtain rfl := Text.shownAs_ofChars.mp hopens
  obtain rfl := Text.shownAs_ofChars.mp hfull
  obtain rfl := Text.shownAs_ofChars.mp hwords
  obtain rfl := Text.shownAs_ofChars.mp hends
  obtain rfl := Text.shownAs_ofChars.mp hls
  refine ⟨file, hshown, ?_⟩
  simp [String.toList_join, List.flatMap_map]

/-- The text of a message is a remark with its lines below. -/
theorem Tables.ShownAs.exists_lines {m : MessageRecord} (hname : '\n' ∉ m.fullName.toList)
    (hfile : .char '\n' ∉ m.file.units) {cs : List Char} (hcs : (t.render m).ShownAs cs) :
    ∃ body, '\n' ∉ body ∧ cs = '/' :: '/' :: (body ++ '\n' ::
      (t.messageLines t.messages.size m).flatMap fun l => l.toList ++ ['\n']) := by
  obtain ⟨file, hshown, rfl⟩ := Tables.ShownAs.exists_file hcs
  exact ⟨_, by simp [hname, hshown.newline_notMem hfile], rfl⟩

/-- The text of a message is read as a file that declares this message and nothing else. -/
theorem Linker.Writes.parse_render (h : l.Writes t) {m : MessageRecord} (hm : m ∈ t.messages)
    (hentry : m.isMapEntry = false) (hfile : .char '\n' ∉ m.file.units) {cs : List Char}
    (hcs : (t.render m).ShownAs cs) (name : Text) :
    ∃ d, SchemaFile.parse name cs = .ok ⟨name, .proto2, none, [], [d], [], [], [], []⟩ ∧
      l.Mirrors t m d := by
  obtain ⟨p, hp⟩ := Array.getElem?_of_mem hm
  obtain ⟨ls, hlines, hreads⟩ := h.chunk_message t.messages.size hp hentry (by omega)
  obtain ⟨body, hbody, rfl⟩ :=
    Tables.ShownAs.exists_lines (h.messages m hm hentry).2.isDotted.newline_notMem hfile hcs
  obtain ⟨tree, _, file, hderive, hvalue, ⟨d, rfl, hmirrors, hlabeled⟩, hmade⟩ :=
    exists_derive_of_item (R := fun item => ∃ d, item = .message d ∧ l.Mirrors t m d ∧ d.Labeled)
      (.comment hbody (.blank rfl hlines.spells)) fun prev => Nonterminal.reads_rule 3
        (Action.reads_last (hreads prev trivial) fun d _ hd => ⟨_, rfl, d, rfl, hd.1⟩)
  obtain rfl := Except.ok.inj hmade
  exact ⟨d, SchemaFile.parse_of_value_ok hderive hvalue (SchemaFile.fault?_ofMessage hlabeled),
    hmirrors⟩

end Writes

end ProtoSchema
