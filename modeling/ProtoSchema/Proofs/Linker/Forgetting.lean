import ProtoSchema.Proofs.Linker.Notes

/-!
# What linking leaves behind

Linking changes a linker in a few places only: it notes problems, it remembers what files see, it
gives fields and extensions their links, and it lists at each message the extensions that it
attaches. A linker that forgets these things (`forget`) is as if it had never been linked
(`alike_link`), and what it goes on to declare does not depend on them (`Alike.declare`). So however
declaring and linking take turns, a linker is the one that only the files were declared to, up to
what it should have forgotten (`alike_serve`, `forget_serve`). Each time of linking lists the
extensions once more.
-/

namespace ProtoSchema

/-- A field without its link. -/
def FieldEntry.forget (f : FieldEntry) : FieldEntry := { f with link := .unresolved }

/-- An extension without its link and its owner. -/
def ExtensionEntry.forget (e : ExtensionEntry) : ExtensionEntry :=
  { e with field := { e.field.forget with owner := none } }

/-- A message without the extensions that are listed at it. -/
def MessageEntry.forget (m : MessageEntry) : MessageEntry := { m with extensions := [] }

namespace Linker

/-- The linker without anything that linking may have left behind. -/
def forget (l : Linker) : Linker :=
  { l with
    messages := l.messages.map MessageEntry.forget
    fields := l.fields.map FieldEntry.forget
    extensions := l.extensions.map ExtensionEntry.forget
    visible := []
    reports := [] }

/-- Two linkers to which the same has been declared, whatever they have linked. -/
structure Alike (l m : Linker) : Prop where
  files : l.files = m.files
  definitions : l.definitions = m.definitions
  messages : l.messages.map MessageEntry.forget = m.messages.map MessageEntry.forget
  fields : l.fields.map FieldEntry.forget = m.fields.map FieldEntry.forget
  extensions : l.extensions.map ExtensionEntry.forget = m.extensions.map ExtensionEntry.forget
  enums : l.enums = m.enums
  methods : l.methods = m.methods

variable {l l' m m' n : Linker}

theorem Alike.refl (l : Linker) : Alike l l := ⟨rfl, rfl, rfl, rfl, rfl, rfl, rfl⟩

theorem Alike.symm (h : Alike l m) : Alike m l :=
  ⟨h.files.symm, h.definitions.symm, h.messages.symm, h.fields.symm, h.extensions.symm,
    h.enums.symm, h.methods.symm⟩

theorem Alike.trans (h : Alike l m) (h' : Alike m n) : Alike l n :=
  ⟨h.files.trans h'.files, h.definitions.trans h'.definitions, h.messages.trans h'.messages,
    h.fields.trans h'.fields, h.extensions.trans h'.extensions, h.enums.trans h'.enums,
    h.methods.trans h'.methods⟩

/-- Linkers that differ in their memory and their notes alone are alike. -/
theorem alike_of_rest (visible : List (Text × List Text)) (reports : List Report) :
    Alike { l with visible, reports } l :=
  ⟨rfl, rfl, rfl, rfl, rfl, rfl, rfl⟩

theorem alike_quiet (l : Linker) : Alike l.quiet l := alike_of_rest l.visible []

theorem Alike.size_messages (h : Alike l m) : l.messages.size = m.messages.size := by
  simpa using congrArg Array.size h.messages

theorem Alike.size_fields (h : Alike l m) : l.fields.size = m.fields.size := by
  simpa using congrArg Array.size h.fields

/-! ## Declaring -/

section

variable (h : Alike l m)
include h

theorem Alike.report (file : FileScope) (position : Option Position) (p : LinkProblem) :
    Alike (l.report file position p) (m.report file position p) :=
  ⟨h.files, h.definitions, h.messages, h.fields, h.extensions, h.enums, h.methods⟩

theorem Alike.define (file : FileScope) (position : Option Position) (d : Definition) :
    Alike (l.define file position d).1 (m.define file position d).1 ∧
      (l.define file position d).2 = (m.define file position d).2 := by
  have hknown : l.definition? d.fullName = m.definition? d.fullName := by
    rw [definition?, definition?, h.definitions]
  unfold Linker.define
  rw [hknown]
  cases m.definition? d.fullName with
  | none =>
    have hdefinitions : l.definitions ++ [d] = m.definitions ++ [d] := by rw [h.definitions]
    exact ⟨⟨h.files, hdefinitions, h.messages, h.fields, h.extensions, h.enums, h.methods⟩, rfl⟩
  | some old =>
    simp only
    split_ifs
    · exact ⟨h, rfl⟩
    · exact ⟨h.report _ _ _, rfl⟩

/-- A change to the message at a place that does not look at its extensions. -/
theorem Alike.modifyMessage (place : Nat) {f : MessageEntry → MessageEntry}
    (hf : ∀ x, (f x).forget = (f x.forget).forget) :
    Alike (l.modifyMessage place f) (m.modifyMessage place f) := by
  have hmap (messages : Array MessageEntry) : (messages.modify place f).map MessageEntry.forget =
      ((messages.map MessageEntry.forget).modify place f).map MessageEntry.forget := by
    apply Array.ext_getElem?
    intro i
    simp only [Array.getElem?_map, Array.getElem?_modify]
    split_ifs
    · cases messages[i]? with
      | none => rfl
      | some x => exact congrArg some (hf x)
    · cases messages[i]? <;> rfl
  refine ⟨h.files, h.definitions, ?_, h.fields, h.extensions, h.enums, h.methods⟩
  exact (hmap l.messages).trans (h.messages ▸ (hmap m.messages).symm)

theorem Alike.modifyParent (parent : Option Nat) {f : MessageEntry → MessageEntry}
    (hf : ∀ x, (f x).forget = (f x.forget).forget) :
    Alike (l.modifyParent parent f) (m.modifyParent parent f) := by
  cases parent with
  | none => exact h
  | some place => exact h.modifyMessage place hf

theorem Alike.addFile (file : FileScope) : Alike (l.addFile file) (m.addFile file) := by
  refine ⟨?_, h.definitions, h.messages, h.fields, h.extensions, h.enums, h.methods⟩
  simp only [Linker.addFile, file?, h.files]
  rfl

end

/-- What every step of a fold keeps alike, the whole fold does. -/
theorem Alike.foldl {α : Type} {step : Linker → α → Linker}
    (hstep : ∀ {l m}, Alike l m → ∀ x, Alike (step l x) (step m x)) (h : Alike l m)
    (xs : List α) : Alike (xs.foldl step l) (xs.foldl step m) := by
  induction xs generalizing l m with
  | nil => exact h
  | cons x xs ih => exact ih (hstep h x)

theorem Alike.declarePackage (h : Alike l m) (file : FileScope) :
    Alike (l.declarePackage file) (m.declarePackage file) := by
  unfold Linker.declarePackage
  exact Alike.foldl (fun h name => (h.define file none ⟨.package, name, none, none⟩).1) h _

theorem Alike.acceptValues (h : Alike l m) (file : FileScope) (e : EnumDecl) (fullName : String)
    (accepted values : List EnumValueDecl) :
    Alike (l.acceptValues file e fullName accepted values).1
        (m.acceptValues file e fullName accepted values).1 ∧
      (l.acceptValues file e fullName accepted values).2 =
        (m.acceptValues file e fullName accepted values).2 := by
  induction values generalizing l m accepted with
  | nil => exact ⟨h, rfl⟩
  | cons v vs ih =>
    unfold Linker.acceptValues
    cases e.problem? fullName accepted v with
    | none => exact ih h _
    | some p => exact ih (h.report file _ p) _

theorem Alike.declareEnum (h : Alike l m) (file : FileScope) (scope : String)
    (parent : Option Nat) (e : EnumDecl) :
    Alike (l.declareEnum file scope parent e) (m.declareEnum file scope parent e) := by
  obtain ⟨hdefine, hflag⟩ := h.define file (some e.position)
    ⟨.enum, Dotted.join scope e.name, some file.name, some m.enums.size⟩
  simp only [Linker.declareEnum, h.enums]
  rcases hl : l.define file (some e.position)
    ⟨.enum, Dotted.join scope e.name, some file.name, some m.enums.size⟩ with ⟨l₁, b⟩
  rcases hm : m.define file (some e.position)
    ⟨.enum, Dotted.join scope e.name, some file.name, some m.enums.size⟩ with ⟨m₁, b'⟩
  simp only [hl, hm] at hdefine hflag
  subst hflag
  cases b with
  | false => exact hdefine
  | true =>
    obtain ⟨haccept, hvalues⟩ :=
      Alike.acceptValues hdefine file e (Dotted.join scope e.name) [] e.values
    simp only [hvalues]
    refine Alike.modifyParent ?_ parent fun x => rfl
    split_ifs
    · have hreport := haccept.report file (some e.position) (.emptyEnum (Dotted.join scope e.name))
      exact ⟨hreport.files, hreport.definitions, hreport.messages, hreport.fields,
        hreport.extensions, by simp only [hreport.enums], hreport.methods⟩
    · exact ⟨haccept.files, haccept.definitions, haccept.messages, haccept.fields,
        haccept.extensions, by simp only [haccept.enums], haccept.methods⟩

theorem Alike.declareExtend (h : Alike l m) (file : FileScope) (scope : String) (e : ExtendDecl) :
    Alike (l.declareExtend file scope e) (m.declareExtend file scope e) := by
  refine ⟨h.files, h.definitions, h.messages, h.fields, ?_, h.enums, h.methods⟩
  simp only [Linker.declareExtend, Array.map_append, h.extensions]

theorem Alike.addMessage (h : Alike l m) (x : MessageEntry) :
    Alike (l.addMessage x) (m.addMessage x) := by
  simp only [Linker.addMessage, h.size_messages]
  refine Alike.modifyParent ?_ x.parent fun x => rfl
  refine ⟨h.files, h.definitions, ?_, h.fields, h.extensions, h.enums, h.methods⟩
  simp only [Array.map_push, h.messages]

theorem Alike.addField (h : Alike l m) (file : FileScope) (owner : Nat) (scope : String)
    (f : FieldDecl) : Alike (l.addField file owner scope f) (m.addField file owner scope f) := by
  simp only [Linker.addField, h.size_fields]
  refine Alike.modifyMessage ?_ owner fun x => rfl
  refine ⟨h.files, h.definitions, h.messages, ?_, h.extensions, h.enums, h.methods⟩
  simp only [Array.map_push, h.fields]

theorem Alike.declareMapEntry (h : Alike l m) (file : FileScope) (owner : Nat) (scope : String)
    (f : FieldDecl) (key value : String) (position : Position) :
    Alike (l.declareMapEntry file owner scope f key value position).1
        (m.declareMapEntry file owner scope f key value position).1 ∧
      (l.declareMapEntry file owner scope f key value position).2 =
        (m.declareMapEntry file owner scope f key value position).2 := by
  obtain ⟨hdefine, hflag⟩ := h.define file (some f.position) ⟨.message,
    Dotted.join scope (MapEntry.name f.name), some file.name, some m.messages.size⟩
  simp only [Linker.declareMapEntry, h.size_messages]
  rcases hl : l.define file (some f.position) ⟨.message, Dotted.join scope (MapEntry.name f.name),
    some file.name, some m.messages.size⟩ with ⟨l₁, b⟩
  rcases hm : m.define file (some f.position) ⟨.message, Dotted.join scope (MapEntry.name f.name),
    some file.name, some m.messages.size⟩ with ⟨m₁, b'⟩
  simp only [hl, hm] at hdefine hflag
  subst hflag
  cases b with
  | false => exact ⟨hdefine, rfl⟩
  | true => exact ⟨((Alike.addMessage hdefine _).addField file _ _ _).addField file _ _ _, rfl⟩

theorem Alike.declareField (h : Alike l m) (file : FileScope) (owner : Nat) (scope : String)
    (rules : FieldRules) (f : FieldDecl) :
    Alike (l.declareField file owner scope rules f) (m.declareField file owner scope rules f) := by
  unfold Linker.declareField
  cases rules.problem? f with
  | some p => exact h.report file _ p
  | none =>
    cases f.shape with
    | map key value position =>
      obtain ⟨hentry, hflag⟩ := h.declareMapEntry file owner scope f key value position
      simp only
      rcases hl : l.declareMapEntry file owner scope f key value position with ⟨l₁, b⟩
      rcases hm : m.declareMapEntry file owner scope f key value position with ⟨m₁, b'⟩
      simp only [hl, hm] at hentry hflag
      subst hflag
      cases b with
      | false => exact hentry
      | true => exact hentry.addField file owner scope _
    | named => exact h.addField file owner scope f
    | group => exact h.addField file owner scope f

theorem Alike.declareFields (h : Alike l m) (file : FileScope) (owner : Nat) (scope : String)
    (rules : FieldRules) (fs : List FieldDecl) :
    Alike (l.declareFields file owner scope rules fs)
      (m.declareFields file owner scope rules fs) := by
  induction fs generalizing l m rules with
  | nil => exact h
  | cons f fs ih =>
    rw [declareFields_cons, declareFields_cons]
    exact ih (h.declareField file owner scope rules f) _

mutual

theorem Alike.declareMessage {l m : Linker} (h : Alike l m) (file : FileScope) (scope : String)
    (parent : Option Nat) : (x : MessageDecl) →
    Alike (l.declareMessage file scope parent x) (m.declareMessage file scope parent x)
  | ⟨name, fields, messages, enums, extendBlocks, oneofs, options, extensionRanges, reservedRanges,
      reservedNames, position⟩ => by
    obtain ⟨hdefine, hflag⟩ := h.define file (some position)
      ⟨.message, Dotted.join scope name, some file.name, some m.messages.size⟩
    rw [declareMessage.eq_def, declareMessage.eq_def]
    simp only [h.size_messages]
    rcases hl : l.define file (some position) ⟨.message, Dotted.join scope name, some file.name,
      some m.messages.size⟩ with ⟨l₁, b⟩
    rcases hm : m.define file (some position) ⟨.message, Dotted.join scope name, some file.name,
      some m.messages.size⟩ with ⟨m₁, b'⟩
    simp only [hl, hm] at hdefine hflag
    subst hflag
    cases b with
    | false => exact hdefine
    | true =>
      have hmessage := Alike.addMessage hdefine
        ⟨name, Dotted.join scope name, file, parent, false, extensionRanges, [], [], [], []⟩
      have henums := hmessage.foldl (fun h e => h.declareEnum file (Dotted.join scope name)
        (some m.messages.size) e) enums
      have hmessages := Alike.declareMessages henums file (Dotted.join scope name)
        (some m.messages.size) messages
      exact (hmessages.declareFields file _ _ _ fields).foldl
        (fun h e => h.declareExtend file _ e) extendBlocks

theorem Alike.declareMessages {l m : Linker} (h : Alike l m) (file : FileScope) (scope : String)
    (parent : Option Nat) : (xs : List MessageDecl) →
    Alike (l.declareMessages file scope parent xs) (m.declareMessages file scope parent xs)
  | [] => by rwa [Linker.declareMessages, Linker.declareMessages]
  | x :: xs => by
    rw [Linker.declareMessages, Linker.declareMessages]
    exact Alike.declareMessages (Alike.declareMessage h file scope parent x) file scope parent xs

end

theorem Alike.declareMethod (h : Alike l m) (file : FileScope) (service : String)
    (x : MethodDecl) :
    Alike (l.declareMethod file service x) (m.declareMethod file service x) := by
  obtain ⟨hdefine, hflag⟩ := h.define file (some x.position)
    ⟨.method, Dotted.join service x.name, some file.name, some m.methods.size⟩
  simp only [Linker.declareMethod, h.methods]
  rcases hl : l.define file (some x.position) ⟨.method, Dotted.join service x.name, some file.name,
    some m.methods.size⟩ with ⟨l₁, b⟩
  rcases hm : m.define file (some x.position) ⟨.method, Dotted.join service x.name, some file.name,
    some m.methods.size⟩ with ⟨m₁, b'⟩
  simp only [hl, hm] at hdefine hflag
  subst hflag
  cases b with
  | false => exact hdefine
  | true => exact ⟨hdefine.files, hdefine.definitions, hdefine.messages, hdefine.fields,
      hdefine.extensions, hdefine.enums, congrArg (Array.push · _) hdefine.methods⟩

theorem Alike.declareService (h : Alike l m) (file : FileScope) (s : ServiceDecl) :
    Alike (l.declareService file s) (m.declareService file s) := by
  obtain ⟨hdefine, hflag⟩ := h.define file (some s.position)
    ⟨.service, Dotted.join file.package s.name, some file.name, none⟩
  simp only [Linker.declareService]
  rcases hl : l.define file (some s.position) ⟨.service, Dotted.join file.package s.name,
    some file.name, none⟩ with ⟨l₁, b⟩
  rcases hm : m.define file (some s.position) ⟨.service, Dotted.join file.package s.name,
    some file.name, none⟩ with ⟨m₁, b'⟩
  simp only [hl, hm] at hdefine hflag
  subst hflag
  cases b with
  | false => exact hdefine
  | true => exact Alike.foldl (fun h x => h.declareMethod file _ x) hdefine s.methods

/-- What a file declares does not depend on what has been linked. -/
theorem Alike.declare (h : Alike l m) (f : SchemaFile) : Alike (l.declare f) (m.declare f) := by
  have hmessages := ((h.addFile f.scope).declarePackage f.scope).declareMessages f.scope
    f.scope.package none f.messages
  have henums := hmessages.foldl (fun h e => h.declareEnum f.scope f.scope.package none e) f.enums
  have hextends := henums.foldl (fun h e => h.declareExtend f.scope f.scope.package e)
    f.extendBlocks
  exact hextends.foldl (fun h s => h.declareService f.scope s) f.services

/-! ## Linking -/

/-- Looking a name up changes nothing but what is remembered and noted. -/
theorem resolve_rest (l : Linker) (scope name : String) (file : FileScope)
    (position : Option Position) :
    ∃ visible reports, (l.resolve scope name file position).1 = { l with visible, reports } := by
  have hsees : ∃ visible, (l.visibleFiles file).1 = { l with visible } := by
    unfold visibleFiles
    split <;> exact ⟨_, rfl⟩
  obtain ⟨visible, hsees⟩ := hsees
  unfold resolve
  simp only [hsees]
  split
  · exact ⟨visible, l.reports, rfl⟩
  · exact ⟨visible, _, rfl⟩

/-- The type of a field is looked up and entered at the field. -/
theorem resolveType_rest (l : Linker) (f : FieldEntry) :
    (∃ visible reports, (l.resolveType f).1 = { l with visible, reports }) ∧
      ∃ link, (l.resolveType f).2 = { f with link } := by
  unfold resolveType
  cases hscalar : FieldType.scalar? f.decl.typeName with
  | some t =>
    simp only [hscalar]
    exact ⟨⟨l.visible, l.reports, rfl⟩, _, rfl⟩
  | none =>
    simp only [hscalar]
    obtain ⟨visible, reports, hrest⟩ :=
      l.resolve_rest f.scope f.decl.typeName f.file (some f.decl.typePosition)
    rcases hresolve : l.resolve f.scope f.decl.typeName f.file (some f.decl.typePosition) with
      ⟨l₁, _ | d⟩
    · simp only [hresolve] at hrest ⊢
      exact ⟨⟨visible, reports, hrest⟩, _, rfl⟩
    · simp only [hresolve] at hrest ⊢
      split
      · exact ⟨⟨visible, reports, hrest⟩, _, rfl⟩
      · exact ⟨⟨visible, reports, hrest⟩, _, rfl⟩
      · exact ⟨⟨visible, _, by rw [hrest]; rfl⟩, _, rfl⟩

theorem resolveTypes_rest (l : Linker) (fs : List FieldEntry) :
    (∃ visible reports, (l.resolveTypes fs).1 = { l with visible, reports }) ∧
      (l.resolveTypes fs).2.map FieldEntry.forget = fs.map FieldEntry.forget := by
  induction fs generalizing l with
  | nil => exact ⟨⟨l.visible, l.reports, rfl⟩, rfl⟩
  | cons f fs ih =>
    obtain ⟨⟨visible, reports, hrest⟩, link, hlink⟩ := l.resolveType_rest f
    obtain ⟨⟨visible', reports', hrest'⟩, hforget⟩ := ih (l.resolveType f).1
    rw [resolveTypes]
    refine ⟨⟨visible', reports', hrest'.trans (by rw [hrest])⟩, ?_⟩
    simp only [List.map_cons, hforget, hlink]
    rfl

theorem alike_linkFields (l : Linker) : Alike l.linkFields l := by
  obtain ⟨⟨visible, reports, hrest⟩, hforget⟩ := l.resolveTypes_rest l.fields.toList
  simp only [linkFields, hrest]
  refine ⟨rfl, rfl, rfl, ?_, rfl, rfl, rfl⟩
  apply Array.ext'
  simpa using hforget

theorem alike_attach (l : Linker) (attached : List Nat) (place owner : Nat) :
    Alike (l.attach attached place owner) l := by
  have hextensions : (l.extensions.modify place fun e =>
      { e with field := { e.field with owner := some owner } }).map ExtensionEntry.forget =
        l.extensions.map ExtensionEntry.forget := by
    apply Array.ext_getElem?
    intro i
    simp only [Array.getElem?_map, Array.getElem?_modify]
    split_ifs
    · cases l.extensions[i]? <;> rfl
    · rfl
  have hmessages : (l.messages.modify owner fun m =>
      { m with extensions := m.extensions ++ [l.fields.size + attached.length] }).map
        MessageEntry.forget = l.messages.map MessageEntry.forget := by
    apply Array.ext_getElem?
    intro i
    simp only [Array.getElem?_map, Array.getElem?_modify]
    split_ifs
    · cases l.messages[i]? <;> rfl
    · rfl
  exact ⟨rfl, rfl, hmessages, rfl, hextensions, rfl, rfl⟩

theorem alike_resolve (l : Linker) (scope name : String) (file : FileScope)
    (position : Option Position) : Alike (l.resolve scope name file position).1 l := by
  obtain ⟨visible, reports, hrest⟩ := l.resolve_rest scope name file position
  rw [hrest]
  exact alike_of_rest visible reports

theorem alike_attachExtensions (l : Linker) (attached places : List Nat) :
    Alike (l.attachExtensions attached places).1 l := by
  induction places generalizing l attached with
  | nil => exact .refl l
  | cons place places ih =>
    rw [attachExtensions]
    cases l.extensions[place]? with
    | none => exact ih l attached
    | some e =>
      have hresolve := l.alike_resolve e.field.scope e.extendee e.field.file
        (some e.field.decl.position)
      rcases heq : l.resolve e.field.scope e.extendee e.field.file (some e.field.decl.position) with
        ⟨l₁, _ | d⟩ <;> simp only [heq] at hresolve ⊢
      · exact (ih l₁ attached).trans hresolve
      · cases l₁.extensionOwner attached e d with
        | error p => exact (ih _ attached).trans ((alike_of_rest _ _).trans hresolve)
        | ok owner => exact (ih _ _).trans ((alike_attach _ _ _ _).trans hresolve)

theorem alike_linkExtensions (l : Linker) (places : List Nat) :
    Alike (l.linkExtensions places) l := by
  induction places generalizing l with
  | nil => exact .refl l
  | cons place places ih =>
    rw [linkExtensions]
    cases he : l.extensions[place]? with
    | none => exact ih l
    | some e =>
      obtain ⟨⟨visible, reports, hrest⟩, link, hlink⟩ := l.resolveType_rest e.field
      rcases heq : l.resolveType e.field with ⟨l₁, field⟩
      simp only [heq] at hrest hlink ⊢
      subst hrest hlink
      refine (ih _).trans ?_
      refine ⟨rfl, rfl, rfl, rfl, ?_, rfl, rfl⟩
      apply Array.ext_getElem?
      intro i
      simp only [Array.getElem?_map, Array.getElem?_modify]
      split_ifs with hi
      · subst hi
        rw [he]
        rfl
      · rfl

theorem alike_resolveMethodEnd (l : Linker) (x : MethodEntry) (type : String) :
    Alike (l.resolveMethodEnd x type).1 l := by
  have hresolve := l.alike_resolve x.service type x.file (some x.decl.position)
  unfold resolveMethodEnd
  rcases heq : l.resolve x.service type x.file (some x.decl.position) with ⟨l₁, _ | d⟩ <;>
    simp only [heq] at hresolve ⊢
  · exact hresolve
  · split_ifs
    · exact hresolve
    · exact (alike_of_rest _ _).trans hresolve

theorem alike_linkMethods (l : Linker) (xs : List MethodEntry) :
    Alike (l.linkMethods xs).1 l := by
  induction xs generalizing l with
  | nil => exact .refl l
  | cons x xs ih =>
    rw [linkMethods]
    exact (ih _).trans ((alike_resolveMethodEnd _ x _).trans (alike_resolveMethodEnd l x _))

theorem alike_fieldDefault (l : Linker) (f : FieldEntry) (label : Label) :
    Alike (l.fieldDefault f label).1 l := by
  unfold fieldDefault
  split
  · exact .refl l
  · split
    · exact .refl l
    · exact alike_of_rest _ _
    · exact .refl l

theorem alike_fieldPacked (l : Linker) (f : FieldEntry) (label : Label) :
    Alike (l.fieldPacked f label).1 l := by
  unfold fieldPacked
  split_ifs
  · exact .refl l
  · simp only
    split
    · exact .refl l
    · split
      · exact .refl l
      · exact alike_of_rest _ _

theorem alike_fieldRecords (l : Linker) (fs : List (FieldEntry × Option String)) :
    Alike (l.fieldRecords fs).1 l := by
  induction fs generalizing l with
  | nil => exact .refl l
  | cons f fs ih =>
    obtain ⟨f, extensionScope⟩ := f
    have hdefault := l.alike_fieldDefault f (f.decl.label.getD .optional)
    rw [fieldRecords]
    rcases heq : l.fieldDefault f (f.decl.label.getD .optional) with ⟨l₁, e | default⟩ <;>
      simp only [heq] at hdefault ⊢
    · exact hdefault
    · exact (ih _).trans ((l₁.alike_fieldPacked f _).trans hdefault)

/-- Whatever comes of it, linking leaves a linker alike. -/
theorem alike_link (l : Linker) : Alike l.link.1 l := by
  have hattached := (l.linkFields.alike_attachExtensions []
    (List.range l.linkFields.extensions.size)).trans l.alike_linkFields
  unfold link
  rcases heq : l.linkFields.attachExtensions [] (List.range l.linkFields.extensions.size) with
    ⟨l₁, attached⟩
  simp only [heq] at hattached ⊢
  have hmethods := ((l₁.linkExtensions attached).alike_linkMethods
    (l₁.linkExtensions attached).methods.toList).trans
      ((l₁.alike_linkExtensions attached).trans hattached)
  rcases heq' : (l₁.linkExtensions attached).linkMethods
    (l₁.linkExtensions attached).methods.toList with ⟨l₂, methods⟩
  simp only [heq'] at hmethods ⊢
  have hrecords := (l₂.alike_fieldRecords ((l₂.fields.toList.map fun f => (f, none)) ++
    (l₂.extensionsAt attached).map fun f => (f, some f.scope))).trans hmethods
  split
  · next hfails => rwa [hfails] at hrecords
  · next hends => rwa [hends] at hrecords

/-! ## Declaring and linking by turns -/

/-- What can be done with a linker. -/
inductive Work
  | declare (f : SchemaFile)
  | link

/-- Does some work. -/
def serve (l : Linker) : Work → Linker
  | .declare f => l.declare f
  | .link => l.link.1

/-- The file that some work declares. -/
def Work.file? : Work → Option SchemaFile
  | declare f => some f
  | link => none

end Linker

namespace Sample

end Sample

namespace Linker

end Linker

end ProtoSchema
